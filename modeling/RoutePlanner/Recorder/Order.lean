import Mathlib.Data.List.Nodup
import RoutePlanner.Recorder.Ledger
import RoutePlanner.Recorder.Outbox

/-!
# Every key is queued once, and the fixes stay in order

Over every run of the recorder whose trips get ids of their own: any order of calls, rejected
writes, upload passes, kills and relaunches.

* `MemLedger` and `DiskLedger`: what the memory and the storage owe to the books.
* `upload_ledger`, `move_ledger`: every step keeps them.
-/

namespace RoutePlanner.Recorder

open RoutePlanner.Lib

variable {K : Type} [Field K] [LinearOrder K]

/-! ## The memory and the storage -/

/-- The trip that `init` is ending from its stored record, once the write has taken effect. The
record in memory, if there is one, is then dropped. -/
def Cont.replaced : Cont K → Option String
  | .finalizing tripId _ (.initTrips _) true => some tripId
  | _ => none

theorem Cont.closing_of_replaced {c : Cont K} {tripId : String}
    (h : c.replaced = some tripId) : c.closing = some tripId := by
  unfold Cont.replaced at h
  split at h
  · exact h
  · exact absurd h (by simp)

/-- A trip that goes on, all of whose numbers are in use unless a write was rejected. -/
structure TripBooks (L : List (Effect K)) (t : TripRecord K) : Prop where
  trip : OpenTrip L t
  gapless : Effect.rejected ∉ L → Gapless L t

/-- What the memory owes. -/
structure MemLedger (L : List (Effect K)) (mem : Mem K) : Prop where
  head : ∀ t ∈ mem.trip, t.head = (accepts L t.tripId).getLast?
  trip : ∀ t ∈ mem.trip, mem.cont.closing ≠ some t.tripId → OpenTrip L t
  gapless : ∀ t ∈ mem.trip, mem.cont.replaced ≠ some t.tripId → mem.cont.failed = false →
    Effect.rejected ∉ L → Gapless L t
  kept : ∀ t ∈ mem.trip, mem.cont.replaced ≠ some t.tripId →
    (tripFixes L t.tripId ++ t.pending).Sublist (accepts L t.tripId)
  outbox : ∀ i ∈ mem.outbox, i ∈ queuedItems L
  drain : ∀ i ∈ mem.drain.items, i ∈ queuedItems L
  items : mem.cont.failed = false → ∀ i ∈ mem.cont.items, i ∈ queuedItems L
  trips : ∀ t ∈ mem.cont.trips, TripBooks L t
  distinct : (mem.cont.closing.toList ++ mem.cont.trips.map TripRecord.tripId).Nodup

/-- What a memory owes whose operation goes on, with the trips `init` has yet to finalize. -/
structure ReadyLedger (L : List (Effect K)) (mem : Mem K) (loaded : List (TripRecord K)) :
    Prop where
  head : ∀ t ∈ mem.trip, t.head = (accepts L t.tripId).getLast?
  trip : ∀ t ∈ mem.trip, TripBooks L t
  outbox : ∀ i ∈ mem.outbox, i ∈ queuedItems L
  drain : ∀ i ∈ mem.drain.items, i ∈ queuedItems L
  trips : ∀ t ∈ loaded, TripBooks L t
  distinct : (loaded.map TripRecord.tripId).Nodup

/-- What the storage owes. -/
structure DiskLedger (L : List (Effect K)) (disk : StoredState K) : Prop where
  trips : ∀ t ∈ disk.trips, TripBooks L t
  distinct : (disk.trips.map TripRecord.tripId).Nodup
  outbox : ∀ i ∈ disk.outbox, i ∈ queuedItems L

/-- What a step returns after `L` has happened. -/
structure StepLedger (L : List (Effect K)) (disk : StoredState K) (out : Out K) : Prop where
  log : LedgerOk (L ++ out.2)
  mem : MemLedger (L ++ out.2) out.1
  disk : DiskLedger (L ++ out.2) (out.2.foldl Effect.onDisk disk)

section Basic

variable {L es : List (Effect K)} {mem mem' mem₁ : Mem K} {disk : StoredState K}
  {t : TripRecord K} {loaded : List (TripRecord K)} {e : Effect K}

theorem TripBooks.mono (h : TripBooks L t) (hes : tripItems es t.tripId = []) :
    TripBooks (L ++ es) t :=
  ⟨h.trip.mono hes, fun hrej => (h.gapless fun hmem => hrej (List.mem_append_left _ hmem)).mono hes⟩

/-- An operation suspends, and has changed no trip and no item. -/
theorem ReadyLedger.suspend (h : ReadyLedger L mem loaded) (ht : mem'.trip = mem.trip)
    (ho : mem'.outbox = mem.outbox) (hd : mem'.drain = mem.drain)
    (hclosing : mem'.cont.closing = none)
    (hitems : mem'.cont.failed = false → ∀ i ∈ mem'.cont.items, i ∈ queuedItems L)
    (htrips : ∀ t ∈ mem'.cont.trips, TripBooks L t)
    (hdistinct : (mem'.cont.trips.map TripRecord.tripId).Nodup) : MemLedger L mem' where
  head := fun t hmem => h.head t (ht ▸ hmem)
  trip := fun t hmem _ => (h.trip t (ht ▸ hmem)).trip
  gapless := fun t hmem _ _ => (h.trip t (ht ▸ hmem)).gapless
  kept := fun t hmem _ => (h.trip t (ht ▸ hmem)).trip.kept
  outbox := fun i hi => h.outbox i (ho ▸ hi)
  drain := fun i hi => h.drain i (hd ▸ hi)
  items := hitems
  trips := htrips
  distinct := by
    rw [hclosing]
    exact hdistinct

/-- An operation suspends, and holds nothing. -/
theorem ReadyLedger.hold (h : ReadyLedger L mem loaded) (ht : mem'.trip = mem.trip)
    (ho : mem'.outbox = mem.outbox) (hd : mem'.drain = mem.drain)
    (hclosing : mem'.cont.closing = none) (hitems : mem'.cont.items = [])
    (htrips : mem'.cont.trips = []) : MemLedger L mem' := by
  refine h.suspend ht ho hd hclosing (fun _ i hi => ?_) (fun t hmem => ?_) ?_
  · exact absurd (hitems ▸ hi) List.not_mem_nil
  · exact absurd (htrips ▸ hmem) List.not_mem_nil
  · rw [htrips]
    exact List.nodup_nil

/-- A write has taken effect, and the items it put are queued. -/
theorem MemLedger.enqueued (h : MemLedger L mem) {trip : Option (TripRecord K)}
    {items : List (OutboxItem K)} (htrip : ∀ t ∈ trip, t ∈ mem.trip ∧ TripBooks L t)
    (hitems : ∀ i ∈ items, i ∈ queuedItems L) (hl : mem.cont.trips = loaded) :
    ReadyLedger L (Mem.enqueue { mem with trip := trip } items) loaded := by
  subst hl
  refine ⟨fun t hmem => ?_, fun t hmem => ?_, fun i hi => ?_, fun i hi => ?_, h.trips,
    (List.nodup_append.mp h.distinct).2.1⟩
  · rw [Mem.enqueue_trip] at hmem
    exact h.head t (htrip t hmem).1
  · rw [Mem.enqueue_trip] at hmem
    exact (htrip t hmem).2
  · rcases Mem.mem_enqueue.mp hi with hi | hi
    · exact h.outbox i hi
    · exact hitems i hi
  · rw [Mem.enqueue_drain] at hi
    exact h.drain i hi

/-- **What an operation goes on with.** -/
theorem MemLedger.prep (h : MemLedger L mem) (hp : Prep mem mem₁ loaded) :
    ReadyLedger L mem₁ loaded := by
  have hbooks : ∀ t ∈ mem.trip, mem.cont.failed = false → mem.cont.closing ≠ some t.tripId →
      TripBooks L t :=
    fun t ht hfailed hclosing => ⟨h.trip t ht hclosing,
      h.gapless t ht (fun hreplaced => hclosing (Cont.closing_of_replaced hreplaced)) hfailed⟩
  have hids := h.distinct
  cases hp with
  | same hfailed hclosing htrips hitems hup hkeep ht hs ho hd hq =>
    have hne : ∀ tripId, mem.cont.closing ≠ some tripId := fun _ => by rw [hclosing]; simp
    exact ⟨fun t hmem => h.head t (ht ▸ hmem), fun t hmem => hbooks t (ht ▸ hmem) hfailed (hne _),
      fun i hi => h.outbox i (ho ▸ hi), fun i hi => h.drain i (hd ▸ hi),
      fun _ hmem => absurd hmem List.not_mem_nil, List.nodup_nil⟩
  | loaded hc =>
    have htrips := h.trips
    have hitems := h.items
    rw [hc] at htrips hids hitems
    exact ⟨h.head, fun t hmem => hbooks t hmem (by rw [hc]; rfl) (by rw [hc]; simp [Cont.closing]),
      hitems rfl, h.drain, htrips, hids⟩
  | finalized hc =>
    have hitems := h.items
    rw [hc] at hitems
    refine h.enqueued (fun t hmem => ?_) (hitems rfl) (by rw [hc]; rfl)
    obtain ⟨hmem, hne⟩ := Option.mem_filter_iff.mp hmem
    refine ⟨hmem, hbooks t hmem (by rw [hc]; rfl) fun hclosing => ?_⟩
    rw [hc] at hclosing
    exact of_decide_eq_true hne (Option.some.inj hclosing).symm
  | queued hc =>
    have hitems := h.items
    rw [hc] at hitems
    refine h.enqueued (fun t hmem => ⟨hmem, ?_⟩) (hitems rfl) (by rw [hc]; rfl)
    exact hbooks t hmem (by rw [hc]; rfl) (by rw [hc]; simp [Cont.closing])
  | cleared hc =>
    exact ⟨fun _ hmem => absurd hmem (Option.not_mem_none _),
      fun _ hmem => absurd hmem (Option.not_mem_none _), fun _ hi => absurd hi List.not_mem_nil,
      h.drain, fun _ hmem => absurd hmem List.not_mem_nil, List.nodup_nil⟩

end Basic

/-! ## Steps that queue nothing -/

/-- Nothing is queued, accepted or put. -/
structure Effect.Quiet (e : Effect K) : Prop where
  queued : e.queued = []
  accepted : ∀ tripId, e.accepted tripId = []
  puts : ∀ ops, e = .apply ops true → ops.putTrips = []

theorem queuedItems_quiet {es : List (Effect K)} (h : ∀ e ∈ es, e.Quiet) : queuedItems es = [] :=
  List.flatMap_eq_nil_iff.mpr fun e he => (h e he).queued

theorem accepts_quiet {es : List (Effect K)} (h : ∀ e ∈ es, e.Quiet) (tripId : String) :
    accepts es tripId = [] :=
  List.flatMap_eq_nil_iff.mpr fun e he => (h e he).accepted tripId

/-- A write that puts nothing. -/
theorem quiet_apply {ops : StorageOps K} {ok : Bool} (ht : ops.putTrips = [])
    (ho : ops.putOutbox = []) : (Effect.apply ops ok).Quiet := by
  refine ⟨?_, fun _ => rfl, fun ops' h => (Effect.apply.inj h).1 ▸ ht⟩
  cases ok
  · rfl
  · exact ho

/-- An answer, and a write that puts nothing. -/
theorem quiet_answered {token : String} {status : ℕ} {ops : StorageOps K} {ok : Bool}
    (ht : ops.putTrips = []) (ho : ops.putOutbox = []) :
    ∀ e ∈ [Effect.answered token status, .apply ops ok], e.Quiet := by
  intro e he
  rcases List.mem_pair.mp he with rfl | rfl
  · exact ⟨rfl, fun _ => rfl, fun _ h => by cases h⟩
  · exact quiet_apply ht ho

section Quiet

variable {L es : List (Effect K)} {mem mem' : Mem K} {disk : StoredState K} {e : Effect K}
  {out : Out K}

theorem DiskLedger.mono (h : DiskLedger L disk) (hq : queuedItems es = []) :
    DiskLedger (L ++ es) disk :=
  ⟨fun t ht => (h.trips t ht).mono (tripItems_eq_nil hq _), h.distinct,
    fun i hi => subset_queuedItems_append (h.outbox i hi)⟩

theorem DiskLedger.quiet (h : DiskLedger L disk) (he : e.Quiet) :
    DiskLedger (L ++ [e]) (e.onDisk disk) := by
  have hkeep : DiskLedger (L ++ [e]) disk :=
    h.mono (queuedItems_quiet fun e' he' => List.mem_singleton.mp he' ▸ he)
  unfold Effect.onDisk
  split
  · rename_i ops
    have hputs : ops.putTrips = [] := he.puts ops rfl
    have hqueued : ops.putOutbox = [] := he.queued
    refine ⟨fun t ht => ?_, ?_, fun i hi => ?_⟩
    · rcases (StoredState.mem_trips_apply ht).1 with ht | ht
      · exact absurd (hputs ▸ ht) List.not_mem_nil
      · exact hkeep.trips t ht
    · unfold StoredState.apply
      rw [hputs]
      exact hkeep.distinct.sublist (List.filter_sublist.map _)
    · rcases StoredState.mem_outbox_apply hi with hi | hi
      · exact absurd (hqueued ▸ hi) List.not_mem_nil
      · exact hkeep.outbox i hi
  · exact hkeep

theorem DiskLedger.foldl_quiet (h : DiskLedger L disk) (hes : ∀ e ∈ es, e.Quiet) :
    DiskLedger (L ++ es) (es.foldl Effect.onDisk disk) := by
  induction es generalizing L disk with
  | nil => exact (List.append_nil L).symm ▸ h
  | cons e es ih =>
    have htail := ih (h.quiet (hes e List.mem_cons_self))
      fun e' he' => hes e' (List.mem_cons_of_mem e he')
    rwa [List.append_assoc] at htail

/-- The memory, when nothing is queued or accepted. -/
theorem MemLedger.quiet (h : MemLedger L mem) (hb : mem.Beside mem')
    (ho : ∀ i ∈ mem'.outbox, i ∈ mem.outbox) (hd : ∀ i ∈ mem'.drain.items, i ∈ queuedItems L)
    (hes : ∀ e ∈ es, e.Quiet) : MemLedger (L ++ es) mem' := by
  have hnil : ∀ tripId, tripItems es tripId = [] := tripItems_eq_nil (queuedItems_quiet hes)
  have haccepts : ∀ tripId, accepts (L ++ es) tripId = accepts L tripId := by
    intro tripId
    rw [accepts_append, accepts_quiet hes, List.append_nil]
  constructor
  · intro t ht
    rw [haccepts]
    exact h.head t (hb.trip ▸ ht)
  · intro t ht hclosing
    exact (h.trip t (hb.trip ▸ ht) (hb.cont ▸ hclosing)).mono (hnil _)
  · intro t ht hclosing hfailed hrej
    exact (h.gapless t (hb.trip ▸ ht) (hb.cont ▸ hclosing) (hb.cont ▸ hfailed)
      fun hmem => hrej (List.mem_append_left _ hmem)).mono (hnil _)
  · intro t ht hreplaced
    rw [haccepts, tripFixes_append]
    unfold tripFixes
    rw [hnil]
    exact (List.append_nil (fixesOf (tripItems L t.tripId))).symm ▸
      h.kept t (hb.trip ▸ ht) (hb.cont ▸ hreplaced)
  · exact fun i hi => subset_queuedItems_append (h.outbox i (ho i hi))
  · exact fun i hi => subset_queuedItems_append (hd i hi)
  · exact fun hfailed i hi =>
      subset_queuedItems_append (h.items (hb.cont ▸ hfailed) i (hb.cont ▸ hi))
  · exact fun t ht => (h.trips t (hb.cont ▸ ht)).mono (hnil _)
  · rw [hb.cont]
    exact h.distinct

/-- A step that queues, accepts and puts nothing. -/
theorem stepLedger_quiet (hlog : LedgerOk L) (hdisk : DiskLedger L disk)
    (hes : ∀ e ∈ out.2, e.Quiet) (hmem : MemLedger (L ++ out.2) out.1)
    (hs : ∀ i token, Effect.send i token ∈ out.2 → i ∈ queuedItems L) :
    StepLedger L disk out :=
  ⟨hlog.quiet (queuedItems_quiet hes) (accepts_quiet hes) hs, hmem, hdisk.foldl_quiet hes⟩

/-- An answer arrives, and the upload pass waits for a write that puts nothing. -/
theorem stepLedger_answered {token : String} {status : ℕ} {ops : StorageOps K} {ok : Bool}
    (hlog : LedgerOk L) (hmem : MemLedger L mem) (hdisk : DiskLedger L disk)
    (hb : mem.Beside mem') (ho : mem'.outbox = mem.outbox) (hd : mem'.drain.items = [])
    (hpt : ops.putTrips = []) (hpo : ops.putOutbox = []) :
    StepLedger L disk (mem', [.answered token status, .apply ops ok]) := by
  refine stepLedger_quiet hlog hdisk (quiet_answered hpt hpo)
    (hmem.quiet hb (fun i hi => ho ▸ hi) (fun i hi => ?_) (quiet_answered hpt hpo))
    fun i token' hi => ?_
  · exact absurd (hd ▸ hi) List.not_mem_nil
  · rcases List.mem_pair.mp hi with h | h <;> cases h

/-- **The upload pass and the timer.** -/
theorem upload_ledger (hlog : LedgerOk L) (hmem : MemLedger L mem) (hdisk : DiskLedger L disk)
    (h : Upload mem out) : StepLedger L disk out := by
  cases h with
  | quiet hb hs ho hd hdel hes =>
    rename_i mem' es
    have hquiet : ∀ e ∈ es, e.Quiet := by
      intro e he
      rcases hes e he with rfl | ⟨token, status, rfl⟩ <;>
        exact ⟨rfl, fun _ => rfl, fun _ h => by cases h⟩
    refine stepLedger_quiet hlog hdisk hquiet
      (hmem.quiet hb ho.sublist.subset (fun i hi => ?_) hquiet) fun i token hi => ?_
    · exact absurd (hd ▸ hi) List.not_mem_nil
    · rcases hes _ hi with h | ⟨_, _, h⟩ <;> cases h
  | send hb hs hs' ho hi hd =>
    rename_i mem' s item rest
    have hitem : item ∈ queuedItems L :=
      hmem.outbox item (ho.sublist.subset (hi ▸ List.mem_cons_self))
    have hquiet : ∀ e ∈ [Effect.send item s.token], e.Quiet := by
      intro e he
      rw [List.mem_singleton.mp he]
      exact ⟨rfl, fun _ => rfl, fun _ h => by cases h⟩
    refine stepLedger_quiet hlog hdisk hquiet
      (hmem.quiet hb ho.sublist.subset (fun i hi => ?_) hquiet) fun i token hi => ?_
    · rw [hd] at hi
      rw [List.mem_singleton.mp hi]
      exact hitem
    · obtain ⟨rfl, -⟩ := Effect.send.inj (List.mem_singleton.mp hi)
      exact hitem
  | delete hb hs ho hd hd' =>
    exact stepLedger_answered hlog hmem hdisk hb ho (hd' ▸ rfl) rfl rfl
  | mark hb hd hs hs' ho hd' =>
    exact stepLedger_answered hlog hmem hdisk hb ho (hd' ▸ rfl) rfl rfl
  | busy hb hs ho hd =>
    refine stepLedger_quiet hlog hdisk (fun _ he => absurd he List.not_mem_nil)
      (hmem.quiet hb (fun i hi => ho ▸ hi) (fun i hi => hmem.drain i (hd ▸ hi))
        fun _ he => absurd he List.not_mem_nil) fun _ _ hi => absurd hi List.not_mem_nil

end Quiet

/-! ## Steps that seal -/

/-- What was sealed from `t` is written, with the end of the trip if it ends. -/
structure Writes (now : ℕ → ℤ) (t : TripRecord K) (s : Sealing K) (tail : List (OutboxItem K))
    (ops : StorageOps K) : Prop where
  numbered : Numbered now t s
  order : (fixesOf s.into ++ s.trip.pending).Sublist t.pending
  ends : EndsTrip t.tripId tail
  outbox : ops.putOutbox = s.into ++ tail

section Writes

variable {L : List (Effect K)} {now : ℕ → ℤ} {t t' : TripRecord K} {s : Sealing K}
  {tail : List (OutboxItem K)} {ops : StorageOps K} {ok : Bool} {tripId : String}

theorem queuedItems_write : queuedItems [.sealed t s, .apply ops true] = ops.putOutbox :=
  List.append_nil _

theorem Writes.mem_queued (hw : Writes now t s tail ops) {i : OutboxItem K}
    (hi : i ∈ s.into ++ tail) : i ∈ queuedItems (L ++ [.sealed t s, .apply ops true]) := by
  rw [queuedItems_append, queuedItems_write, hw.outbox]
  exact List.mem_append_right _ hi

theorem Writes.tripIds (hw : Writes now t s tail ops) :
    ∀ i ∈ ops.putOutbox, i.key.tripId = t.tripId := by
  rw [hw.outbox]
  exact hw.numbered.tripIds_append hw.ends

theorem Writes.same (hw : Writes now t s tail ops) :
    tripItems [.sealed t s, .apply ops true] t.tripId = s.into ++ tail := by
  unfold tripItems
  rw [queuedItems_write, filter_of_tripId hw.tripIds, hw.outbox]

theorem Writes.other (hw : Writes now t s tail ops) (hne : tripId ≠ t.tripId) :
    tripItems [.sealed t s, .apply ops ok] tripId = [] := by
  cases ok
  · rfl
  · unfold tripItems
    rw [queuedItems_write, filter_of_tripId_ne hw.tripIds hne]

theorem LedgerOk.write (h : LedgerOk L) (ht : TripBooks L t) (hw : Writes now t s tail ops)
    (ok : Bool) :
    LedgerOk (L ++ [.sealed t s, .apply ops ok]) := by
  have hsend : ∀ i token, Effect.send i token ∉ [Effect.sealed t s, .apply ops ok] := by
    intro i token hi
    rcases List.mem_pair.mp hi with h | h <;> cases h
  cases ok
  · exact h.quiet rfl (fun _ => rfl) fun i token hi => absurd hi (hsend i token)
  · exact h.queue ht.trip ht.gapless hw.numbered hw.order hw.ends
      (queuedItems_write.trans hw.outbox) (fun _ => rfl) hsend

/-- The trip as sealing left it, unless it has ended. -/
theorem OpenTrip.write (h : OpenTrip L t) (hw : Writes now t s tail ops) (ok : Bool)
    (hgoes : tail = [] ∨ ok = false) :
    OpenTrip (L ++ [.sealed t s, .apply ops ok]) s.trip := by
  cases ok
  · have hnone : tripItems [Effect.sealed t s, .apply ops false] t.tripId = [] := rfl
    refine (h.mono hnone).drop hw.numbered.tripId ?_
      ((List.sublist_append_right _ _).trans hw.order)
    rw [hw.numbered.nextSeq]
    omega
  · obtain rfl : tail = [] := hgoes.resolve_right Bool.noConfusion
    exact h.queue hw.numbered (hw.same.trans (List.append_nil _)) hw.order

/-- Even where it has ended, what was queued and what is left of the pending fixes are in order. -/
theorem OpenTrip.write_kept (h : OpenTrip L t) (hw : Writes now t s tail ops) :
    (tripFixes (L ++ [Effect.sealed t s, .apply ops ok]) s.trip.tripId ++ s.trip.pending).Sublist
      (accepts (L ++ [Effect.sealed t s, .apply ops ok]) s.trip.tripId) := by
  cases ok
  · exact (h.write hw false (Or.inr rfl)).kept
  · unfold tripFixes
    rw [hw.numbered.tripId, tripItems_append, hw.same, fixesOf_append, fixesOf_append,
      hw.ends.fixes, List.append_nil, List.append_assoc, accepts_append]
    exact (((List.Sublist.refl _).append hw.order).trans h.kept).trans
      (List.sublist_append_left _ _)

theorem Gapless.write (h : Gapless L t) (hw : Writes now t s tail ops) :
    Gapless (L ++ [.sealed t s, .apply ops true]) s.trip := by
  refine h.queue hw.numbered ?_
  rw [hw.same, seqsOf_append, hw.ends.seqs, List.append_nil]

theorem TripBooks.write (h : TripBooks L t) (hw : Writes now t s [] ops) :
    TripBooks (L ++ [.sealed t s, .apply ops true]) s.trip :=
  ⟨h.trip.write hw true (Or.inl rfl), fun hrej =>
    (h.gapless fun hmem => hrej (List.mem_append_left _ hmem)).write hw⟩

/-- Another trip. -/
theorem TripBooks.write_other (h : TripBooks L t') (hw : Writes now t s tail ops)
    (hne : t'.tripId ≠ t.tripId ∨ ok = false) :
    TripBooks (L ++ [.sealed t s, .apply ops ok]) t' := by
  refine h.mono ?_
  rcases hne with hne | rfl
  · exact hw.other hne
  · rfl

/-- The storage after the write: the trip is put as sealing left it, or deleted. -/
theorem DiskLedger.write {disk : StoredState K} (h : DiskLedger L disk) (ht : TripBooks L t)
    (hw : Writes now t s tail ops)
    (hputs : tail = [] ∧ ops.putTrips = [s.trip] ∨ ops.putTrips = [] ∧ t.tripId ∈ ops.deleteTrips)
    (ok : Bool) :
    DiskLedger (L ++ [.sealed t s, .apply ops ok])
      ([Effect.sealed t s, .apply ops ok].foldl Effect.onDisk disk) := by
  cases ok
  · exact h.mono rfl
  · have hother : ∀ t' ∈ disk.trips, t'.tripId ≠ t.tripId →
        TripBooks (L ++ [.sealed t s, .apply ops true]) t' :=
      fun t' ht' hne => (h.trips t' ht').write_other hw (Or.inl hne)
    refine ⟨fun t' ht' => ?_, ?_, fun i hi => ?_⟩
    · obtain ⟨hmem, hdel⟩ := List.mem_filter.mp ht'
      rcases hputs with ⟨rfl, hputs⟩ | ⟨hputs, hdeleted⟩
      · rw [hputs] at hmem
        rcases mem_put hmem with rfl | ⟨hmem, hne⟩
        · exact ht.write hw
        · exact hother t' hmem (hw.numbered.tripId ▸ hne)
      · rw [hputs] at hmem
        exact hother t' hmem fun hid => of_decide_eq_true hdel (hid ▸ hdeleted)
    · refine List.Nodup.sublist (List.filter_sublist.map _) ?_
      rcases hputs with ⟨-, hputs⟩ | ⟨hputs, -⟩
      · rw [hputs]
        exact nodup_put h.distinct
      · rw [hputs]
        exact h.distinct
    · rcases StoredState.mem_outbox_apply hi with hi | hi
      · rw [queuedItems_append, queuedItems_write]
        exact List.mem_append_right _ hi
      · exact subset_queuedItems_append (h.outbox i hi)

end Writes

/-! ## Operations -/

section Operations

variable [FloorRing K] {opts : RecorderOptions K} {env : Env K} {L : List (Effect K)}
  {mem mem₁ : Mem K} {disk : StoredState K} {t t' : TripRecord K} {s : Sealing K} {e : Effect K}
  {loaded : List (TripRecord K)}

/-- The write of `finalize`. -/
theorem finalItems_writes {arrived : Bool} {endedAt : ℤ} (ops : StorageOps K)
    (hops : ops.putOutbox = finalItems opts env t arrived endedAt) :
    ∃ tail, Writes env.stamp t (sealFixes opts env.stamp t) tail ops := by
  refine ⟨_, sealFixes_numbered t, sealFixes_order opts env.stamp t, Or.inr ⟨_, rfl, ?_, rfl⟩, hops⟩
  have hnum : Numbered env.stamp t (sealFixes opts env.stamp t) := sealFixes_numbered t
  unfold endItem
  rw [hnum.tripId]

/-- `finalize`. The trip in memory is the one that is finalized, as sealing left it, or `init`
finalizes a stored one beside it. -/
theorem finalize_ledger {arrived : Bool} {endedAt : ℤ} {next : After K} (hlog : LedgerOk L)
    (hdisk : DiskLedger L disk) (ht : TripBooks L t)
    (hhead : ∀ t' ∈ mem.trip, t'.head = (accepts L t'.tripId).getLast?)
    (htrip : ∀ t' ∈ mem.trip, t' = (sealFixes opts env.stamp t).trip ∨
      TripBooks L t' ∧ ∃ rest, next = .initTrips rest)
    (houtbox : ∀ i ∈ mem.outbox, i ∈ queuedItems L)
    (hdrain : ∀ i ∈ mem.drain.items, i ∈ queuedItems L) (hnext : ∀ t' ∈ next.trips, TripBooks L t')
    (hdistinct : ((t :: next.trips).map TripRecord.tripId).Nodup) :
    StepLedger L disk (finalize opts env mem t arrived endedAt next) := by
  obtain ⟨hnot, hids⟩ := List.nodup_cons.mp hdistinct
  obtain ⟨tail, hw⟩ : ∃ tail, Writes env.stamp t (sealFixes opts env.stamp t) tail
      { StorageOps.nop with
        putOutbox := finalItems opts env t arrived endedAt, deleteTrips := [t.tripId] } :=
    finalItems_writes _ rfl
  unfold finalize
  refine ⟨hlog.write ht hw env.ok, ?_,
    hdisk.write ht hw (Or.inr ⟨rfl, List.mem_singleton_self _⟩) env.ok⟩
  generalize env.ok = ok
  have hclosing : ∀ tripId, (Cont.finalizing t.tripId (finalItems opts env t arrived endedAt) next
      ok).closing ≠ some tripId → tripId ≠ t.tripId ∨ ok = false := by
    intro tripId h
    cases ok
    · exact Or.inr rfl
    · exact Or.inl fun hid => h (by rw [hid]; rfl)
  have hreplaced : ∀ {tripId}, (∃ rest, next = .initTrips rest) → (Cont.finalizing t.tripId
      (finalItems opts env t arrived endedAt) next ok).replaced ≠ some tripId →
      tripId ≠ t.tripId ∨ ok = false := by
    rintro tripId ⟨rest, rfl⟩ h
    cases ok
    · exact Or.inr rfl
    · exact Or.inl fun hid => h (by rw [hid]; rfl)
  have hfailed : (Cont.finalizing t.tripId (finalItems opts env t arrived endedAt) next
      ok).failed = false → ok = true := fun h => by simpa [Cont.failed] using h
  constructor
  · intro t' ht'
    rw [accepts_append]
    exact (hhead t' ht').trans (congrArg _ (List.append_nil _).symm)
  · intro t' ht' hclose
    have hne := hclosing t'.tripId hclose
    rcases htrip t' ht' with rfl | ⟨hbooks, -⟩
    · exact ht.trip.write hw _ (Or.inr (hne.resolve_left fun h => h hw.numbered.tripId))
    · exact (hbooks.write_other hw hne).trip
  · intro t' ht' hrep hfail hrej
    rcases htrip t' ht' with rfl | ⟨hbooks, hloop⟩
    · rw [hfailed hfail] at hrej ⊢
      exact (ht.gapless fun hmem => hrej (List.mem_append_left _ hmem)).write hw
    · exact (hbooks.write_other hw (hreplaced hloop hrep)).gapless hrej
  · intro t' ht' hrep
    rcases htrip t' ht' with rfl | ⟨hbooks, hloop⟩
    · exact ht.trip.write_kept hw
    · exact (hbooks.write_other hw (hreplaced hloop hrep)).trip.kept
  · exact fun i hi => subset_queuedItems_append (houtbox i hi)
  · exact fun i hi => subset_queuedItems_append (hdrain i hi)
  · intro hfail i hi
    rw [hfailed hfail, queuedItems_append, queuedItems_write]
    exact List.mem_append_right _ hi
  · intro t' ht'
    refine (hnext t' ht').write_other hw (Or.inl fun hid => hnot ?_)
    exact hid ▸ List.mem_map_of_mem ht'
  · cases ok
    · exact hids
    · exact hdistinct

omit [FloorRing K] in
/-- An accepted fix is pending, or inside a private point's circle. -/
theorem OpenTrip.accept {fix : TraceFix K} (h : OpenTrip L t) :
    OpenTrip (L ++ [.accept t.tripId fix]) (acceptFix opts t fix) := by
  have h' : OpenTrip (L ++ [.accept t.tripId fix]) t := h.mono rfl
  refine ⟨h'.started, h'.slots, ?_⟩
  have hfixes : tripFixes (L ++ [Effect.accept t.tripId fix]) t.tripId = tripFixes L t.tripId := by
    rw [tripFixes_append]
    exact List.append_nil _
  show (tripFixes (L ++ [Effect.accept t.tripId fix]) t.tripId ++
    (acceptFix opts t fix).pending).Sublist (accepts (L ++ [Effect.accept t.tripId fix]) t.tripId)
  rw [hfixes, accepts_append, accepts_accept_self]
  unfold acceptFix
  simp only
  generalize (if t.head.isNone = true then t.anchors ++ [fix.anchor] else t.anchors) = anchors
  split
  · rw [← List.append_assoc]
    exact h.kept.append (List.Sublist.refl _)
  · exact h.kept.trans (List.sublist_append_left _ _)

/-- What an advance starts from: the fix is accepted, or the route followed. -/
structure Entered (L : List (Effect K)) (e : Effect K) (t t' : TripRecord K) : Prop where
  queued : e.queued = []
  onDisk : ∀ disk : StoredState K, e.onDisk disk = disk
  log : LedgerOk (L ++ [e])
  tripId : t'.tripId = t.tripId
  trip : TripBooks (L ++ [e]) t'
  head : t'.head = (accepts (L ++ [e]) t'.tripId).getLast?

omit [FloorRing K] in
theorem entered_accept {distanceM : LatLon K → LatLon K → K} {fix : TraceFix K}
    (hlog : LedgerOk L) (ht : TripBooks L t) (hhead : t.head = (accepts L t.tripId).getLast?)
    (hf : followsHead distanceM t.head fix = true) :
    Entered L (.accept t.tripId fix) t (acceptFix opts t fix) := by
  refine ⟨rfl, fun _ => rfl, hlog.accept ht.trip hhead hf, rfl,
    ⟨ht.trip.accept, fun hrej => ?_⟩, ?_⟩
  · have hnone : tripItems [Effect.accept t.tripId fix] t.tripId = [] := rfl
    exact (ht.mono hnone).gapless hrej
  · show some fix = (accepts (L ++ [Effect.accept t.tripId fix]) t.tripId).getLast?
    rw [accepts_append, accepts_accept_self, List.getLast?_concat]

omit [FloorRing K] in
theorem entered_follow {route : RouteAlternative K} (hlog : LedgerOk L) (ht : TripBooks L t)
    (hhead : t.head = (accepts L t.tripId).getLast?) :
    Entered L (.follow t.tripId route) t
      (followRoute t route (rerouted env t route).effectiveAt) := by
  have hbooks : TripBooks (L ++ [.follow t.tripId route]) t := ht.mono rfl
  refine ⟨rfl, fun _ => rfl, hlog.quiet rfl (fun _ => rfl) fun i token hi => ?_, rfl,
    ⟨⟨hbooks.trip.started, hbooks.trip.slots, hbooks.trip.kept⟩, hbooks.gapless⟩, ?_⟩
  · exact absurd (List.mem_singleton.mp hi) (by simp)
  · rw [accepts_append]
    exact hhead.trans (congrArg _ (List.append_nil _).symm)

/-- **A fix is accepted, or a route followed.** -/
theorem Advance.entered (ha : Advance opts env t e t' s) (hlog : LedgerOk L) (ht : TripBooks L t)
    (hhead : t.head = (accepts L t.tripId).getLast?) : Entered L e t t' := by
  cases ha with
  | fixSeal hf => exact entered_accept hlog ht hhead hf
  | fix hf => exact entered_accept hlog ht hhead hf
  | routeSeal => exact entered_follow hlog ht hhead
  | route => exact entered_follow hlog ht hhead

/-- The write of a fix or a reroute. -/
theorem Advance.writes (ha : Advance opts env t e t' s) (ops : StorageOps K)
    (hops : ops.putOutbox = s.into) :
    Writes env.stamp t' s [] ops ∧ s.trip.head = t'.head := by
  have hput : ops.putOutbox = s.into ++ [] := hops.trans (List.append_nil _).symm
  cases ha with
  | fixSeal =>
    have hspec := fun t : TripRecord K => @sealFixes_spec K _ _ opts env.stamp _ t
    exact ⟨⟨sealFixes_numbered _, sealFixes_order opts env.stamp _, Or.inl rfl, hput⟩,
      (hspec _).head⟩
  | fix => exact ⟨⟨numbered_nil rfl rfl rfl, List.Sublist.refl _, Or.inl rfl, hput⟩, rfl⟩
  | routeSeal =>
    rename_i route hs
    obtain ⟨hfixes, hpending⟩ := sealArtifact_order opts env.stamp
      ⟨followRoute t route (rerouted env t route).effectiveAt, [], false⟩ (rerouted env t route)
    have hnil : Numbered env.stamp (followRoute t route (rerouted env t route).effectiveAt)
        ⟨followRoute t route (rerouted env t route).effectiveAt, [], false⟩ :=
      numbered_nil rfl rfl rfl
    refine ⟨⟨hnil.sealArtifact _, ?_, Or.inl rfl, hput⟩,
      (SealedFrom.sealArtifact (sealedFrom_trip rfl rfl rfl (fun _ hf => hf) (fun _ hfa => hfa) rfl)
        (List.mem_singleton_self _)).head⟩
    rw [hfixes, hpending]
    exact List.Sublist.refl _
  | route => exact ⟨⟨numbered_nil rfl rfl rfl, List.Sublist.refl _, Or.inl rfl, hput⟩, rfl⟩

/-- A fix or a reroute. -/
theorem advance_ledger (hlog : LedgerOk L) (h : ReadyLedger L mem loaded)
    (hdisk : DiskLedger L disk) (ht : mem.trip = some t) (ha : Advance opts env t e t' s) :
    StepLedger L disk ({ mem with trip := some s.trip, cont := .queued s.into env.ok },
      [e, .sealed t' s, .apply { (StorageOps.nop : StorageOps K) with
        putTrips := [s.trip]
        putOutbox := s.into } env.ok]) := by
  have hent := ha.entered hlog (h.trip t ht) (h.head t ht)
  obtain ⟨hw, hhead⟩ := ha.writes { (StorageOps.nop : StorageOps K) with
    putTrips := [s.trip], putOutbox := s.into } rfl
  have hq : queuedItems [e] = [] := by simp [queuedItems, hent.queued]
  have hkeep : ∀ i ∈ queuedItems L, i ∈ queuedItems (L ++ [e, .sealed t' s,
      .apply { (StorageOps.nop : StorageOps K) with putTrips := [s.trip], putOutbox := s.into }
        env.ok]) := fun i hi => subset_queuedItems_append hi
  have hL : ∀ es : List (Effect K), L ++ e :: es = L ++ [e] ++ es :=
    fun es => by rw [List.append_assoc]; rfl
  have hdisk' := (hdisk.mono hq).write hent.trip hw (Or.inl ⟨rfl, rfl⟩) env.ok
  have hlog' := hent.log.write hent.trip hw env.ok
  have hopen := hent.trip.trip.write hw env.ok (Or.inl rfl)
  rw [← hent.onDisk disk] at hdisk'
  refine ⟨by rw [hL]; exact hlog', ⟨?_, ?_, ?_, ?_, ?_, ?_, ?_, ?_, List.nodup_nil⟩,
    by rw [hL]; exact hdisk'⟩
  · intro t'' ht''
    obtain rfl := Option.mem_some.mp ht''
    rw [hL, accepts_append, hhead, hw.numbered.tripId]
    exact hent.head.trans (congrArg _ (List.append_nil _).symm)
  · intro t'' ht'' _
    obtain rfl := Option.mem_some.mp ht''
    rw [hL]
    exact hopen
  · intro t'' ht'' _ hfailed hrej
    obtain rfl := Option.mem_some.mp ht''
    have hok : env.ok = true := by simpa [Cont.failed] using hfailed
    rw [hL, hok] at hrej ⊢
    exact (hent.trip.write hw).gapless hrej
  · intro t'' ht'' _
    obtain rfl := Option.mem_some.mp ht''
    rw [hL]
    exact hopen.kept
  · exact fun i hi => hkeep i (h.outbox i hi)
  · exact fun i hi => hkeep i (h.drain i hi)
  · intro hfailed i hi
    have hok : env.ok = true := by simpa [Cont.failed] using hfailed
    rw [hL, hok]
    exact hw.mem_queued (List.mem_append_left _ hi)
  · exact fun _ hmem => absurd hmem List.not_mem_nil

omit [FloorRing K] in
/-- An id that was not given to a trip yet has no books. -/
theorem LedgerOk.fresh (hlog : LedgerOk L) {tripId : String} (h : ¬ Started L tripId) :
    tripItems L tripId = [] ∧ accepts L tripId = [] := by
  constructor
  · refine List.eq_nil_iff_forall_not_mem.mpr fun i hi => h ?_
    obtain ⟨hqueued, rfl⟩ := mem_tripItems.mp hi
    exact hlog.queued i hqueued
  · exact List.eq_nil_iff_forall_not_mem.mpr fun f hf => h (hlog.accepted tripId f hf)

omit [FloorRing K] in
/-- A trip starts. -/
theorem startTrip_ledger {route : RouteAlternative K} {destination : Option (LatLon K)}
    (hlog : LedgerOk L) (h : ReadyLedger L mem loaded) (hdisk : DiskLedger L disk)
    (hfresh : ¬ Started L env.tripId) :
    StepLedger L disk
      ({ mem with trip := some (newTrip env route destination), cont := .starting env.ok },
        [.follow env.tripId route,
          .apply { StorageOps.nop with putTrips := [newTrip env route destination] } env.ok]) := by
  obtain ⟨hitems, haccepts⟩ := hlog.fresh hfresh
  generalize hes : [Effect.follow env.tripId route,
    .apply { StorageOps.nop with putTrips := [newTrip env route destination] } env.ok] = es
  have hq : queuedItems es = [] := by
    subst hes
    cases env.ok <;> rfl
  have ha : ∀ tripId, accepts es tripId = [] := by
    subst hes
    exact fun _ => rfl
  have hitems' : tripItems (L ++ es) env.tripId = [] := by
    rw [tripItems_append, hitems, tripItems_eq_nil hq]
    rfl
  have haccepts' : accepts (L ++ es) env.tripId = [] := by
    rw [accepts_append, haccepts, ha]
    rfl
  have hnew : TripBooks (L ++ es) (newTrip env route destination) := by
    refine ⟨⟨⟨route, List.mem_append_right _ (hes ▸ List.mem_cons_self)⟩, fun i hi => ?_, ?_⟩,
      fun _ => ?_⟩
    · exact absurd (hitems' ▸ hi) List.not_mem_nil
    · unfold tripFixes
      rw [show (newTrip env route destination).tripId = env.tripId from rfl, hitems']
      exact List.nil_sublist _
    · unfold Gapless tripSeqs
      rw [show (newTrip env route destination).tripId = env.tripId from rfl, hitems']
      rfl
  refine ⟨hlog.quiet hq ha fun i token hi => ?_, ?_, ?_⟩
  · subst hes
    rcases List.mem_pair.mp hi with h | h <;> cases h
  · have hready : ReadyLedger (L ++ es)
        { mem with trip := some (newTrip env route destination) } [] := by
      refine ⟨fun t ht => ?_, fun t ht => ?_, fun i hi => subset_queuedItems_append (h.outbox i hi),
        fun i hi => subset_queuedItems_append (h.drain i hi),
        fun _ ht => absurd ht List.not_mem_nil, List.nodup_nil⟩
      · obtain rfl := Option.mem_some.mp ht
        exact (congrArg List.getLast? haccepts').symm
      · obtain rfl := Option.mem_some.mp ht
        exact hnew
    exact hready.hold rfl rfl rfl rfl rfl rfl
  · have hkeep := hdisk.mono hq
    subst hes
    generalize env.ok = ok at hkeep hnew ⊢
    cases ok
    · exact hkeep
    · refine ⟨fun t ht => ?_, List.Nodup.sublist (List.filter_sublist.map _)
        (nodup_put hkeep.distinct), fun i hi => ?_⟩
      · rcases mem_put (List.mem_filter.mp ht).1 with rfl | ⟨ht, -⟩
        · exact hnew
        · exact hkeep.trips t ht
      · rcases StoredState.mem_outbox_apply hi with hi | hi
        · exact absurd hi List.not_mem_nil
        · exact hkeep.outbox i hi

omit [FloorRing K] in
/-- What an operation loads. -/
theorem ReadyLedger.wait {c : Cont K} (h : ReadyLedger L mem loaded) (hdisk : DiskLedger L disk)
    (hc : c.Waits disk) : MemLedger L { mem with cont := c } := by
  cases hc with
  | initLoaded =>
    refine h.suspend rfl rfl rfl rfl (fun _ i hi => ?_) hdisk.trips hdisk.distinct
    exact hdisk.outbox i (StoredState.mem_outbox_load.mp hi)
  | idle => exact h.hold rfl rfl rfl rfl rfl rfl
  | initUnloaded => exact h.hold rfl rfl rfl rfl rfl rfl
  | forgetUnloaded => exact h.hold rfl rfl rfl rfl rfl rfl
  | forgetLoaded => exact h.hold rfl rfl rfl rfl rfl rfl
  | optInMe token => exact h.hold rfl rfl rfl rfl rfl rfl
  | optInJson token => exact h.hold rfl rfl rfl rfl rfl rfl

omit [FloorRing K] in
theorem closing_of_failed {c : Cont K} (h : c.failed = true) : c.closing = none := by
  unfold Cont.closing
  split
  · exact absurd h (by simp [Cont.failed])
  · rfl

omit [FloorRing K] in
/-- The operation learns that its write was rejected. -/
theorem MemLedger.thrown (h : MemLedger L mem) (hlog : LedgerOk L) (hdisk : DiskLedger L disk)
    (hc : mem.cont.failed = true) : StepLedger L disk mem.thrown := by
  have hopen : ∀ t ∈ mem.trip, OpenTrip L t :=
    fun t ht => h.trip t ht (by rw [closing_of_failed hc]; simp)
  have hquiet : ∀ e ∈ [(Effect.rejected : Effect K)], e.Quiet := by
    intro e he
    rw [List.mem_singleton.mp he]
    exact ⟨rfl, fun _ => rfl, fun _ h => by cases h⟩
  have hnone : ∀ tripId, tripItems [(Effect.rejected : Effect K)] tripId = [] := fun _ => rfl
  refine stepLedger_quiet hlog hdisk hquiet ?_ fun i token hi => ?_
  · refine ⟨fun t ht => ?_, fun t ht _ => (hopen t ht).mono (hnone _), fun t ht _ _ hrej => ?_,
      fun t ht _ => ((hopen t ht).mono (hnone _)).kept,
      fun i hi => subset_queuedItems_append (h.outbox i hi),
      fun i hi => subset_queuedItems_append (h.drain i hi),
      fun _ i hi => absurd hi List.not_mem_nil, fun _ ht => absurd ht List.not_mem_nil,
      List.nodup_nil⟩
    · rw [accepts_append]
      exact (h.head t ht).trans (congrArg _ (List.append_nil _).symm)
    · exact absurd (List.mem_append_right _ (List.mem_singleton_self _)) hrej
  · exact absurd (List.mem_singleton.mp hi) (by simp)

omit [FloorRing K] in
/-- An operation waits for a write that puts nothing. -/
theorem ReadyLedger.write {mem' : Mem K} {ops : StorageOps K} {ok : Bool}
    (h : ReadyLedger L mem loaded) (hlog : LedgerOk L) (hdisk : DiskLedger L disk)
    (ht : mem'.trip = mem.trip) (ho : mem'.outbox = mem.outbox) (hd : mem'.drain = mem.drain)
    (hclosing : mem'.cont.closing = none) (hitems : mem'.cont.items = [])
    (htrips : mem'.cont.trips = []) (hpt : ops.putTrips = []) (hpo : ops.putOutbox = []) :
    StepLedger L disk (mem', [.apply ops ok]) := by
  have hquiet : ∀ e ∈ [Effect.apply ops ok], e.Quiet := by
    intro e he
    rw [List.mem_singleton.mp he]
    exact quiet_apply hpt hpo
  have hmem : MemLedger L mem' := h.hold ht ho hd hclosing hitems htrips
  refine stepLedger_quiet hlog hdisk hquiet
    (hmem.quiet (Mem.Beside.refl _) (fun _ hi => hi) (fun i hi => hmem.drain i hi) hquiet)
    fun i token hi => ?_
  exact absurd (List.mem_singleton.mp hi) (by simp)

/-- **Every move keeps the books.** -/
theorem move_ledger {out : Out K} (hlog : LedgerOk L) (hmem : MemLedger L mem)
    (hdisk : DiskLedger L disk) (hfresh : ¬ Started L env.tripId)
    (h : Move opts env disk mem out) : StepLedger L disk out := by
  have hquiet : ∀ mem' : Mem K, MemLedger L mem' → StepLedger L disk (mem', []) := by
    intro mem' hmem'
    rw [← List.append_nil L] at hmem'
    exact stepLedger_quiet hlog hdisk (fun _ he => absurd he List.not_mem_nil) hmem'
      fun _ _ hi => absurd hi List.not_mem_nil
  cases h with
  | rest hc => exact hquiet mem hmem
  | thrown hc => exact hmem.thrown hlog hdisk hc
  | wait hp hl hc => exact hquiet _ ((hmem.prep hp).wait hdisk hc)
  | flush hp hl =>
    refine upload_ledger hlog ?_ hdisk (flush_upload (Mem.Beside.refl _) rfl rfl rfl)
    exact (hmem.prep hp).wait hdisk .idle
  | closeOpen hp hl ht arrived hn hop =>
    have hready := hmem.prep hp
    refine finalize_ledger hlog hdisk (hready.trip _ ht) (fun t' ht' => ?_)
      (fun t' ht' => Or.inl (Option.mem_some.mp ht').symm) hready.outbox hready.drain ?_ ?_
    · obtain rfl := Option.mem_some.mp ht'
      have hspec := fun t : TripRecord K => @sealFixes_spec K _ _ opts env.stamp _ t
      rw [(hspec _).head, (hspec _).tripId]
      exact hready.head _ ht
    · rw [hn]
      exact fun _ ht' => absurd ht' List.not_mem_nil
    · rw [hn]
      exact List.nodup_singleton _
  | closeLoaded hp =>
    have hready := hmem.prep hp
    exact finalize_ledger hlog hdisk (hready.trips _ List.mem_cons_self) hready.head
      (fun t' ht' => Or.inr ⟨hready.trip t' ht', _, rfl⟩) hready.outbox hready.drain
      (fun t' ht' => hready.trips t' (List.mem_cons_of_mem _ ht')) hready.distinct
  | startTrip hp hl hop => exact startTrip_ledger hlog (hmem.prep hp) hdisk hfresh
  | advance hp hl hc hrec ht hop ha => exact advance_ledger hlog (hmem.prep hp) hdisk ht ha
  | settings hp hl hs hc =>
    refine (hmem.prep hp).write hlog hdisk rfl rfl rfl ?_ ?_ ?_ rfl rfl <;>
      rcases hc with rfl | ⟨enabled, rfl⟩ <;> rfl
  | forget hc =>
    exact (hmem.prep (prep_forget hc)).write hlog hdisk rfl rfl rfl rfl rfl rfl rfl rfl

end Operations

/-! ## Runs -/

section Run

variable [FloorRing K] {opts : RecorderOptions K} {w : World K} {e : Event K}

/-- `newTripId()` returns an id that no trip was given before. -/
def FreshId (w : World K) : Event K → Prop
  | .opStep env => ¬ Started w.log env.tripId
  | _ => True

instance decFreshId (w : World K) : (e : Event K) → Decidable (FreshId w e)
  | .opStep _ => instDecidableNot
  | .call _ => isTrue trivial
  | .drainStep _ => isTrue trivial
  | .timer => isTrue trivial
  | .kill => isTrue trivial
  | .launch => isTrue trivial

/-- What a world owes to its books. -/
structure WorldLedger (w : World K) : Prop where
  log : LedgerOk w.log
  mem : ∀ mem ∈ w.mem, MemLedger w.log mem
  disk : DiskLedger w.log w.disk

omit [FloorRing K] in
theorem WorldLedger.emit {out : Out K} (h : StepLedger w.log w.disk out) :
    WorldLedger (w.emit out) := by
  refine ⟨h.log, fun mem hmem => ?_, h.disk⟩
  rw [← Option.mem_some.mp hmem]
  exact h.mem

/-- **One event keeps the books.** -/
theorem step_ledger (hfresh : FreshId w e) (h : WorldLedger w) :
    WorldLedger (step opts w e) := by
  unfold step
  split
  · refine ⟨h.log, fun mem hmem => ?_, h.disk⟩
    rw [← Option.mem_some.mp hmem]
    have hnone : ReadyLedger w.log (Mem.init : Mem K) [] :=
      ⟨fun _ ht => absurd ht (Option.not_mem_none _), fun _ ht => absurd ht (Option.not_mem_none _),
        fun _ hi => absurd hi List.not_mem_nil, fun _ hi => absurd hi List.not_mem_nil,
        fun _ ht => absurd ht List.not_mem_nil, List.nodup_nil⟩
    exact hnone.wait h.disk .idle
  · exact h
  · rename_i mem op hmem
    refine ⟨h.log, fun mem' hmem' => ?_, h.disk⟩
    rw [← Option.mem_some.mp hmem']
    obtain ⟨h1, h2, h3, h4, h5, h6, h7, h8, h9⟩ := h.mem mem hmem
    exact ⟨h1, h2, h3, h4, h5, h6, h7, h8, h9⟩
  · rename_i mem env hmem
    exact WorldLedger.emit (move_ledger h.log (h.mem mem hmem) h.disk hfresh opStep_move)
  · rename_i mem env hmem
    exact WorldLedger.emit (upload_ledger h.log (h.mem mem hmem) h.disk (drainStep_upload env))
  · rename_i mem hmem
    exact WorldLedger.emit (upload_ledger h.log (h.mem mem hmem) h.disk timerStep_upload)
  · exact ⟨h.log, fun mem hmem => absurd hmem (Option.not_mem_none mem), h.disk⟩
  · exact h

omit [FloorRing K] in
theorem worldLedger_init : WorldLedger (World.init : World K) := by
  refine ⟨ledgerOk_nil, fun mem hmem => ?_, ?_⟩
  · exact absurd hmem (Option.not_mem_none mem)
  · exact ⟨fun _ ht => absurd ht List.not_mem_nil, List.nodup_nil,
      fun _ hi => absurd hi List.not_mem_nil⟩

/-- **Every run with fresh ids keeps the books.** -/
theorem run_ledger (opts : RecorderOptions K) {events : List (Event K)}
    (h : Along (step opts) FreshId .init events) : WorldLedger (run opts events) :=
  h.invariant (fun _ _ => step_ledger) worldLedger_init

/-! ### Requests -/

omit [FloorRing K] in
/-- No two items are queued under one key. -/
theorem LedgerOk.eq_of_key {L : List (Effect K)} (h : LedgerOk L) {i j : OutboxItem K}
    (hi : i ∈ queuedItems L) (hj : j ∈ queuedItems L) (hk : i.key = j.key) : i = j := by
  have hranks : ((tripItems L i.key.tripId).map fun i => i.key.slot.rank).Nodup :=
    List.pairwise_map.mpr ((h.slots i.key.tripId).imp ne_of_lt)
  exact List.inj_on_of_nodup_map hranks (mem_tripItems.mpr ⟨hi, rfl⟩)
    (mem_tripItems.mpr ⟨hj, by rw [hk]⟩) (by rw [hk])

/-- **A sealed chunk never changes.** In every run with fresh ids, with rejected writes, kills and
relaunches anywhere, all requests under one key, which is to say to one path, carry one body. -/
theorem requests_agree (opts : RecorderOptions K) (events : List (Event K))
    (h : Along (step opts) FreshId .init events) :
    ∀ i j token token', Effect.send i token ∈ (run opts events).log →
      Effect.send j token' ∈ (run opts events).log → i.key = j.key → i.body = j.body := by
  intro i j token token' hi hj hk
  have hlog := (run_ledger opts h).log
  rw [hlog.eq_of_key (hlog.sent i token hi) (hlog.sent j token' hj) hk]

/-! ### Traces -/

/-- `l` is part of what was accepted for the trip, in order: times increase, at least
`MIN_FIX_INTERVAL_MS` apart, and no fix is there twice. -/
structure InTrace (L : List (Effect K)) (tripId : String) (l : List (TraceFix K)) : Prop where
  accepted : l.Sublist (accepts L tripId)
  spaced : l.Pairwise fun f g => f.t + minFixIntervalMs ≤ g.t
  nodup : l.Nodup

/-- The records of open trips: those stored, and the one in memory, unless its stored record has
just been ended (`Cont.replaced`). -/
def World.Record (w : World K) (t : TripRecord K) : Prop :=
  t ∈ w.disk.trips ∨ ∃ mem ∈ w.mem, t ∈ mem.trip ∧ mem.cont.replaced ≠ some t.tripId

/-- What a run promises about the traces of its trips. -/
structure TracesInOrder (w : World K) : Prop where
  /-- A trip's items are queued in the order of their numbers, the end last. -/
  slots : ∀ tripId,
    (tripItems w.log tripId).Pairwise fun i j => i.key.slot.rank < j.key.slot.rank
  /-- What is queued of a trip, and what is still pending. -/
  record : ∀ t, w.Record t → InTrace w.log t.tripId (tripFixes w.log t.tripId ++ t.pending)
  /-- What is queued of a trip, open or not. -/
  queued : ∀ tripId, InTrace w.log tripId (tripFixes w.log tripId)
  size : ∀ i ∈ queuedItems w.log, i.fixes.length ≤ maxFixesPerChunk
  /-- Unless a write was rejected, the numbers queued for a trip have no gaps. -/
  gapless : Effect.rejected ∉ w.log → ∀ tripId, ∃ n, tripSeqs w.log tripId = List.range n
  /-- For an open trip they end before its next one, in the storage and, unless the awaited write
  has failed, in memory. -/
  stored : Effect.rejected ∉ w.log → ∀ t ∈ w.disk.trips,
    tripSeqs w.log t.tripId = List.range t.nextSeq
  recorded : Effect.rejected ∉ w.log → ∀ mem ∈ w.mem, mem.cont.failed = false → ∀ t ∈ mem.trip,
    mem.cont.replaced ≠ some t.tripId → tripSeqs w.log t.tripId = List.range t.nextSeq

omit [FloorRing K] in
theorem LedgerOk.inTrace {L : List (Effect K)} (h : LedgerOk L) {tripId : String}
    {l : List (TraceFix K)} (hl : l.Sublist (accepts L tripId)) : InTrace L tripId l := by
  have hspaced := (h.spaced tripId).sublist hl
  refine ⟨hl, hspaced, hspaced.imp fun hle heq => ?_⟩
  rw [heq] at hle
  unfold minFixIntervalMs at hle
  omega

/-- **Every run with fresh ids keeps each trace in order, without duplicates and without gaps.** -/
theorem run_traces (opts : RecorderOptions K) (events : List (Event K))
    (h : Along (step opts) FreshId .init events) : TracesInOrder (run opts events) := by
  obtain ⟨hlog, hmem, hdisk⟩ := run_ledger opts h
  refine ⟨hlog.slots, fun t ht => hlog.inTrace ?_, fun tripId => hlog.inTrace (hlog.kept tripId),
    hlog.size, hlog.gapless, fun hrej t ht => (hdisk.trips t ht).gapless hrej,
    fun hrej mem hm hfailed t ht hreplaced => (hmem mem hm).gapless t ht hreplaced hfailed hrej⟩
  rcases ht with ht | ⟨mem, hm, ht, hreplaced⟩
  · exact (hdisk.trips t ht).trip.kept
  · exact (hmem mem hm).kept t ht hreplaced

end Run

/-! ## A ride with ids of its own -/

section Ride

/-- Steps at which another id is at hand. -/
def nextEnv : Env ℚ := { rideEnv with tripId := "next" }

/-- A call of an operation that starts no trip. -/
def rideOn (op : Op ℚ) (steps : ℕ) : List (Event ℚ) :=
  .call op :: List.replicate steps (.opStep nextEnv)

/-- The server answers, or cannot be reached. -/
def rideReply (reply : Option ℕ) : List (Event ℚ) :=
  List.replicate 2 (.drainStep ⟨true, 0, 0, reply, none⟩)

/-- Too short for any of it to be uploaded. -/
def shortRoute : RouteAlternative ℚ := { rideRoute with geometry := [(0, 0), (0, 1 / 1000)] }

/-- A trip that seals one fix, and goes on. The first request fails, and is sent again. -/
def rideAgain : List (Event ℚ) :=
  .launch :: rideOn (.optIn "token") 4 ++
    [.call (.startTrip shortRoute none), .opStep rideEnv, .opStep nextEnv] ++
    rideOn (.addFix (rideFix 0 0)) 2 ++ rideOn (.addFix (rideFix 60000 (5 / 1000))) 2 ++
    rideOn (.addFix (rideFix 125000 (9 / 1000))) 2 ++ rideReply none ++ rideOn .retryNow 1

/-- The key of a request. -/
def Effect.requested : Effect ℚ → Option Key
  | .send i _ => some i.key
  | _ => none

/-- A request is sent twice. -/
theorem requests_agree_again :
    (run rideOpts rideAgain).log.filterMap Effect.requested =
        [⟨"ride", .chunk 0⟩, ⟨"ride", .chunk 0⟩] ∧
      ∀ i j token token', Effect.send i token ∈ (run rideOpts rideAgain).log →
        Effect.send j token' ∈ (run rideOpts rideAgain).log → i.key = j.key → i.body = j.body :=
  ⟨by decide +kernel, requests_agree rideOpts rideAgain (by decide +kernel)⟩

/-- A trip has chunks and a pending fix. -/
theorem run_traces_again :
    (tripSeqs (run rideOpts rideAgain).log "ride" = [0] ∧
      (tripFixes (run rideOpts rideAgain).log "ride").map TraceFix.t = [60000] ∧
      (run rideOpts rideAgain).disk.trips.map (fun t => t.pending.map TraceFix.t) = [[125000]]) ∧
      TracesInOrder (run rideOpts rideAgain) :=
  ⟨by decide +kernel, run_traces rideOpts rideAgain (by decide +kernel)⟩

end Ride

end RoutePlanner.Recorder
