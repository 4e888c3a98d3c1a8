import RoutePlanner.Recorder.Order
import RoutePlanner.Recorder.Sorting

/-!
# The order of the first requests

`outboxOrder` sorts by the wall clock first, and by number only within one reading. A trip's items
go out in the order of their numbers as long as the clock agrees with it.

* `ClockForward`: the items a step queues are stamped in order, and not before an item of their
  trip that has yet to be sent.
* `Closed`, `Holds`: an outbox that has an unsent item has every unsent item of the trip before it;
  an outbox has every unsent item of an open trip. The memory and the storage keep to both, whatever
  the clock does.
-/

namespace RoutePlanner.Recorder

open RoutePlanner.Lib

variable {K : Type} [Field K] [LinearOrder K]

/-! ## What is unsent -/

/-- A request was sent for the item. -/
def Sent (L : List (Effect K)) (i : OutboxItem K) : Prop := ∃ token, Effect.send i token ∈ L

/-- The effect is a request for the item. -/
def Effect.sends (i : OutboxItem K) : Effect K → Bool
  | .send j _ => decide (j = i)
  | _ => false

theorem sent_iff {L : List (Effect K)} {i : OutboxItem K} :
    Sent L i ↔ L.any (Effect.sends i) = true := by
  rw [List.any_eq_true]
  constructor
  · rintro ⟨token, h⟩
    exact ⟨_, h, decide_eq_true rfl⟩
  · rintro ⟨e, he, hs⟩
    cases e with
    | send j token => exact ⟨token, of_decide_eq_true hs ▸ he⟩
    | _ => exact absurd hs Bool.false_ne_true

instance decSent (L : List (Effect K)) (i : OutboxItem K) : Decidable (Sent L i) :=
  decidable_of_iff _ sent_iff.symm

/-- Whatever is unsent before an item of the outbox is in the outbox. -/
def Closed (L : List (Effect K)) (outbox : List (OutboxItem K)) : Prop :=
  ∀ i ∈ outbox, ∀ j ∈ tripItems L i.key.tripId, j.key.slot.rank < i.key.slot.rank →
    ¬ Sent L j → j ∈ outbox

/-- Whatever is unsent of the trip is in the outbox. -/
def Holds (L : List (Effect K)) (outbox : List (OutboxItem K)) (tripId : String) : Prop :=
  ∀ j ∈ tripItems L tripId, ¬ Sent L j → j ∈ outbox

section Unsent

variable {L es : List (Effect K)} {a b : List (OutboxItem K)} {i : OutboxItem K} {tripId : String}

theorem Sent.mono {L' : List (Effect K)} (hL : L ⊆ L') (h : Sent L i) : Sent L' i :=
  have ⟨token, hi⟩ := h
  ⟨token, hL hi⟩

theorem not_sent_left (h : ¬ Sent (L ++ es) i) : ¬ Sent L i :=
  fun hs => h (hs.mono (List.subset_append_left _ _))

theorem exists_sent_append {key : Key} (h : ∃ item, item.key = key ∧ Sent L item) :
    ∃ item, item.key = key ∧ Sent (L ++ es) item :=
  have ⟨item, hkey, hs⟩ := h
  ⟨item, hkey, hs.mono (List.subset_append_left _ _)⟩

theorem closed_nil : Closed L [] := fun _ hi => absurd hi List.not_mem_nil

theorem Closed.congr (h : Closed L a) (hab : ∀ i, i ∈ a ↔ i ∈ b) : Closed L b :=
  fun i hi j hj hlt hs => (hab j).mp (h i ((hab i).mpr hi) j hj hlt hs)

theorem Holds.congr (h : Holds L a tripId) (hab : ∀ i, i ∈ a ↔ i ∈ b) : Holds L b tripId :=
  fun j hj hs => (hab j).mp (h j hj hs)

/-- The outbox takes in what is queued, and gives away what was sent. -/
theorem Holds.step (h : Holds L a tripId) (hab : ∀ j ∈ a, j ∈ b ∨ Sent (L ++ es) j)
    (hes : ∀ j ∈ queuedItems es, j ∈ b) : Holds (L ++ es) b tripId := by
  intro j hj hs
  rw [tripItems_append] at hj
  rcases List.mem_append.mp hj with hj | hj
  · exact (hab j (h j hj (not_sent_left hs))).resolve_right hs
  · exact hes j (mem_tripItems.mp hj).1

/-- So it stays closed, if what it takes in are items of trips whose unsent items it has. -/
theorem Closed.step (h : Closed L a)
    (hba : ∀ i ∈ b, i ∈ a ∨ Holds L a i.key.tripId)
    (hab : ∀ j ∈ a, j ∈ b ∨ Sent (L ++ es) j) (hes : ∀ j ∈ queuedItems es, j ∈ b) :
    Closed (L ++ es) b := by
  intro i hi j hj hlt hs
  rw [tripItems_append] at hj
  rcases List.mem_append.mp hj with hj | hj
  · have hmem : j ∈ a := by
      rcases hba i hi with hi | hi
      · exact h i hi j hj hlt (not_sent_left hs)
      · exact hi j hj (not_sent_left hs)
    exact (hab j hmem).resolve_right hs
  · exact hes j (mem_tripItems.mp hj).1

/-- What is queued comes after what the trip has in the outbox already. -/
theorem Closed.later (h : Closed L a) (hlog : LedgerOk (L ++ es))
    (ha : ∀ i ∈ a, i ∈ queuedItems L) : Closed (L ++ es) a := by
  intro i hi j hj hlt hs
  rw [tripItems_append] at hj
  rcases List.mem_append.mp hj with hj | hj
  · exact h i hi j hj hlt (not_sent_left hs)
  · have hslots := hlog.slots i.key.tripId
    rw [tripItems_append, List.pairwise_append] at hslots
    exact absurd hlt (hslots.2.2 i (mem_tripItems.mpr ⟨ha i hi, rfl⟩) j hj).asymm

theorem mem_upcoming {c : Cont K} {P : OutboxItem K → Prop} (hab : ∀ j ∈ a, j ∈ b ∨ P j)
    (hi : i ∈ c.upcoming a) : i ∈ c.upcoming b ∨ P i := by
  unfold Cont.upcoming at hi ⊢
  split at hi
  · exact Or.inl hi
  · rcases List.mem_append.mp hi with hi | hi
    · exact (hab i hi).imp_left (List.mem_append_left _)
    · exact Or.inl (List.mem_append_right _ hi)
  · rcases List.mem_append.mp hi with hi | hi
    · exact (hab i hi).imp_left (List.mem_append_left _)
    · exact Or.inl (List.mem_append_right _ hi)
  · exact hab i hi

end Unsent

/-! ## The invariant -/

/-- What a request owes to what came before it. -/
def RequestOk (L : List (Effect K)) (e : Effect K) : Prop :=
  ∀ i token, e = .send i token → i ∈ queuedItems L ∧
    ∀ j ∈ tripItems L i.key.tripId, j.key.slot.rank < i.key.slot.rank → Sent L j

/-- The requests, and the stamps of what is unsent. -/
structure LogQueue (L : List (Effect K)) : Prop where
  requests : EachAfter RequestOk [] L
  stamps : ∀ i ∈ queuedItems L, ∀ j ∈ tripItems L i.key.tripId,
    j.key.slot.rank < i.key.slot.rank → ¬ Sent L j → j.createdAt ≤ i.createdAt

/-- The storage. -/
structure DiskQueue (L : List (Effect K)) (disk : StoredState K) : Prop where
  closed : Closed L disk.outbox
  trips : ∀ t ∈ disk.trips, Holds L disk.outbox t.tripId

/-- The memory, beside the storage. -/
structure MemQueue (L : List (Effect K)) (disk : StoredState K) (mem : Mem K) : Prop where
  sorted : Sorted mem.outbox
  loaded : ∀ state, mem.cont = .initLoaded (some state) → Sorted state.outbox
  closed : Closed L mem.outbox
  upcoming : Closed L (mem.cont.upcoming mem.outbox)
  trip : ∀ t ∈ mem.trip, Holds L (mem.cont.upcoming mem.outbox) t.tripId
  trips : ∀ t ∈ mem.cont.trips, Holds L (mem.cont.upcoming mem.outbox) t.tripId
  stored : mem.cont.clears = false → ∀ t ∈ mem.trip, Holds L disk.outbox t.tripId
  storedTrips : ∀ t ∈ mem.cont.trips, Holds L disk.outbox t.tripId
  sending : ∀ item token, mem.drain = .sending item token → Sent L item
  deleting : ∀ key ok, mem.drain = .deleting key ok → ∃ item, item.key = key ∧ Sent L item
  /-- What `forget` has loaded is still all there is. -/
  forget : ∀ state, mem.cont = .forgetLoaded (some state) →
    (∀ i ∈ disk.outbox, i.key ∈ state.outbox.map OutboxItem.key) ∧
      ∀ t ∈ disk.trips, t.tripId ∈ state.trips.map TripRecord.tripId

/-- The memory of an operation that goes on. -/
structure ReadyQueue (L : List (Effect K)) (disk : StoredState K) (mem : Mem K)
    (loaded : List (TripRecord K)) : Prop where
  sorted : Sorted mem.outbox
  closed : Closed L mem.outbox
  trip : ∀ t ∈ mem.trip, Holds L mem.outbox t.tripId
  trips : ∀ t ∈ loaded, Holds L mem.outbox t.tripId
  stored : ∀ t ∈ mem.trip, Holds L disk.outbox t.tripId
  storedTrips : ∀ t ∈ loaded, Holds L disk.outbox t.tripId
  sending : ∀ item token, mem.drain = .sending item token → Sent L item
  deleting : ∀ key ok, mem.drain = .deleting key ok → ∃ item, item.key = key ∧ Sent L item

/-- What a step returns after `L` has happened. -/
structure StepQueue (L : List (Effect K)) (disk : StoredState K) (out : Out K) : Prop where
  log : LogQueue (L ++ out.2)
  mem : MemQueue (L ++ out.2) (out.2.foldl Effect.onDisk disk) out.1
  disk : DiskQueue (L ++ out.2) (out.2.foldl Effect.onDisk disk)

/-! ## Steps that queue nothing -/

section Quiet

variable {L es : List (Effect K)} {disk disk' : StoredState K} {mem mem' mem₁ : Mem K}
  {loaded : List (TripRecord K)} {out : Out K}

/-- A write has taken effect, and the items it put are queued. -/
theorem MemQueue.enqueued (h : MemQueue L disk mem) {trip : Option (TripRecord K)}
    {items : List (OutboxItem K)} (hsub : ∀ t ∈ trip, t ∈ mem.trip)
    (hup : mem.cont.upcoming mem.outbox = mem.outbox ++ items) (hkeep : mem.cont.clears = false)
    (hl : mem.cont.trips = loaded) :
    ReadyQueue L disk (Mem.enqueue { mem with trip := trip } items) loaded := by
  have hclosed := h.upcoming
  have htrip := h.trip
  have htrips := h.trips
  rw [hup] at hclosed htrip htrips
  subst hl
  have hmem : ∀ i, i ∈ mem.outbox ++ items ↔
      i ∈ (Mem.enqueue { mem with trip := trip } items).outbox := by
    intro i
    rw [Mem.mem_enqueue, List.mem_append]
  refine ⟨Mem.sorted_enqueue _ _ h.sorted, hclosed.congr hmem, fun t ht => ?_,
    fun t ht => (htrips t ht).congr hmem, fun t ht => ?_, h.storedTrips, fun item token hd => ?_,
    fun key ok hd => ?_⟩
  · rw [Mem.enqueue_trip] at ht
    exact (htrip t (hsub t ht)).congr hmem
  · rw [Mem.enqueue_trip] at ht
    exact h.stored hkeep t (hsub t ht)
  · rw [Mem.enqueue_drain] at hd
    exact h.sending item token hd
  · rw [Mem.enqueue_drain] at hd
    exact h.deleting key ok hd

/-- **What an operation goes on with.** -/
theorem MemQueue.prep (h : MemQueue L disk mem) (hp : Prep mem mem₁ loaded) :
    ReadyQueue L disk mem₁ loaded := by
  cases hp with
  | same hfailed hclosing htr hitems hsame hkeep ht hs ho hd hq =>
    have htrip := h.trip
    rw [hsame] at htrip
    exact ⟨ho ▸ h.sorted, ho ▸ h.closed, fun t hmem => ho ▸ htrip t (ht ▸ hmem),
      fun _ hmem => absurd hmem List.not_mem_nil,
      fun t hmem => h.stored hkeep t (ht ▸ hmem), fun _ hmem => absurd hmem List.not_mem_nil,
      fun item token hmem => h.sending item token (hd ▸ hmem),
      fun key ok hmem => h.deleting key ok (hd ▸ hmem)⟩
  | loaded hc =>
    have hup := h.upcoming
    have htrip := h.trip
    have htrips := h.trips
    have hstored := h.storedTrips
    rw [hc] at hup htrip htrips hstored
    exact ⟨h.loaded _ hc, hup, htrip, htrips, h.stored (by rw [hc]; rfl), hstored, h.sending,
      h.deleting⟩
  | finalized hc =>
    exact h.enqueued (fun t ht => (Option.mem_filter_iff.mp ht).1) (by rw [hc]; rfl)
      (by rw [hc]; rfl) (by rw [hc]; rfl)
  | queued hc =>
    exact h.enqueued (fun t ht => ht) (by rw [hc]; rfl) (by rw [hc]; rfl) (by rw [hc]; rfl)
  | cleared hc =>
    exact ⟨List.Pairwise.nil, closed_nil, fun _ ht => absurd ht (Option.not_mem_none _),
      fun _ ht => absurd ht List.not_mem_nil, fun _ ht => absurd ht (Option.not_mem_none _),
      fun _ ht => absurd ht List.not_mem_nil, h.sending, h.deleting⟩

/-- An operation suspends, and holds nothing. -/
theorem ReadyQueue.hold (h : ReadyQueue L disk mem loaded) (ht : mem'.trip = mem.trip)
    (ho : mem'.outbox = mem.outbox) (hd : mem'.drain = mem.drain)
    (hup : ∀ outbox, mem'.cont.upcoming outbox = outbox) (htrips : mem'.cont.trips = [])
    (hload : ∀ state, mem'.cont ≠ .initLoaded (some state))
    (hforget : ∀ state, mem'.cont ≠ .forgetLoaded (some state)) : MemQueue L disk mem' where
  sorted := ho ▸ h.sorted
  loaded := fun state hc => absurd hc (hload state)
  closed := ho ▸ h.closed
  upcoming := by
    rw [hup, ho]
    exact h.closed
  trip := fun t hmem => by
    rw [hup, ho]
    exact h.trip t (ht ▸ hmem)
  trips := fun _ hmem => absurd (htrips ▸ hmem) List.not_mem_nil
  stored := fun _ t hmem => h.stored t (ht ▸ hmem)
  storedTrips := fun _ hmem => absurd (htrips ▸ hmem) List.not_mem_nil
  sending := fun item token hmem => h.sending item token (hd ▸ hmem)
  deleting := fun key ok hmem => h.deleting key ok (hd ▸ hmem)
  forget := fun state hc => absurd hc (hforget state)

/-- What an operation loads. -/
theorem ReadyQueue.wait {c : Cont K} (h : ReadyQueue L disk mem loaded) (hdisk : DiskQueue L disk)
    (hc : c.Waits disk) : MemQueue L disk { mem with cont := c } := by
  have hload : ∀ i, i ∈ disk.outbox ↔ i ∈ disk.load.outbox :=
    fun _ => StoredState.mem_outbox_load.symm
  cases hc with
  | initLoaded =>
    refine ⟨h.sorted, fun state hc => ?_, h.closed, hdisk.closed.congr hload,
      fun t ht => (h.stored t ht).congr hload, fun t ht => (hdisk.trips t ht).congr hload,
      fun _ => h.stored, hdisk.trips, h.sending, h.deleting, fun state hc => by cases hc⟩
    obtain rfl := Option.some.inj (Cont.initLoaded.inj hc)
    exact sorted_mergeSort _
  | forgetLoaded =>
    refine ⟨h.sorted, fun state hc => (by cases hc), h.closed, h.closed, h.trip,
      fun _ ht => absurd ht List.not_mem_nil, fun _ => h.stored,
      fun _ ht => absurd ht List.not_mem_nil, h.sending, h.deleting, fun state hc => ?_⟩
    obtain rfl := Option.some.inj (Cont.forgetLoaded.inj hc)
    exact ⟨fun i hi => List.mem_map_of_mem ((hload i).mp hi), fun t ht => List.mem_map_of_mem ht⟩
  | idle => exact h.hold rfl rfl rfl (fun _ => rfl) rfl (by simp) (by simp)
  | initUnloaded => exact h.hold rfl rfl rfl (fun _ => rfl) rfl (by simp) (by simp)
  | forgetUnloaded => exact h.hold rfl rfl rfl (fun _ => rfl) rfl (by simp) (by simp)
  | optInMe token => exact h.hold rfl rfl rfl (fun _ => rfl) rfl (by simp) (by simp)
  | optInJson token => exact h.hold rfl rfl rfl (fun _ => rfl) rfl (by simp) (by simp)

/-- The storage has given away only what was sent, and taken in nothing. -/
structure Drained (L : List (Effect K)) (disk disk' : StoredState K) : Prop where
  outbox : ∀ j ∈ disk.outbox, j ∈ disk'.outbox ∨ Sent L j
  subset : ∀ j ∈ disk'.outbox, j ∈ disk.outbox
  trips : ∀ t ∈ disk'.trips, t ∈ disk.trips

theorem Drained.refl (L : List (Effect K)) (disk : StoredState K) : Drained L disk disk :=
  ⟨fun _ hj => Or.inl hj, fun _ hj => hj, fun _ ht => ht⟩

theorem DiskQueue.quiet (h : DiskQueue L disk) (hq : queuedItems es = [])
    (hd : Drained L disk disk') : DiskQueue (L ++ es) disk' := by
  have hnone : ∀ j ∈ queuedItems es, j ∈ disk'.outbox :=
    fun j hj => absurd (hq ▸ hj) List.not_mem_nil
  have hgive : ∀ j ∈ disk.outbox, j ∈ disk'.outbox ∨ Sent (L ++ es) j :=
    fun j hj => (hd.outbox j hj).imp_right (Sent.mono (List.subset_append_left _ _))
  exact ⟨h.closed.step (fun i hi => Or.inl (hd.subset i hi)) hgive hnone,
    fun t ht => (h.trips t (hd.trips t ht)).step hgive hnone⟩

theorem LogQueue.quiet (h : LogQueue L) (hq : queuedItems es = [])
    (hreq : EachAfter RequestOk L es) : LogQueue (L ++ es) := by
  refine ⟨eachAfter_append.mpr ⟨h.requests, hreq⟩, fun i hi j hj hlt hs => ?_⟩
  rw [queuedItems_append, hq, List.append_nil] at hi
  rw [tripItems_append, tripItems_eq_nil hq, List.append_nil] at hj
  exact h.stamps i hi j hj hlt (not_sent_left hs)

theorem eachAfter_requestOk (hes : ∀ i token, Effect.send i token ∉ es) :
    EachAfter RequestOk L es := by
  induction es generalizing L with
  | nil => trivial
  | cons e es ih =>
    refine ⟨fun i token he => ?_, ih fun i token hmem => hes i token (List.mem_cons_of_mem e hmem)⟩
    exact absurd (he ▸ List.mem_cons_self) (hes i token)

/-- The memory, when nothing is queued. -/
theorem MemQueue.quiet (h : MemQueue L disk mem) (hb : mem.Beside mem')
    (hsub : mem'.outbox.Sublist mem.outbox) (hgive : ∀ j ∈ mem.outbox, j ∈ mem'.outbox ∨ Sent L j)
    (hq : queuedItems es = []) (hd : Drained L disk disk')
    (hsending : ∀ item token, mem'.drain = .sending item token → Sent (L ++ es) item)
    (hdeleting : ∀ key ok, mem'.drain = .deleting key ok →
      ∃ item, item.key = key ∧ Sent (L ++ es) item) : MemQueue (L ++ es) disk' mem' := by
  have hmono : ∀ {j}, Sent L j → Sent (L ++ es) j := Sent.mono (List.subset_append_left _ _)
  have hnone : ∀ (b : List (OutboxItem K)), ∀ j ∈ queuedItems es, j ∈ b :=
    fun b j hj => absurd (hq ▸ hj) List.not_mem_nil
  have hback : ∀ i ∈ mem.cont.upcoming mem'.outbox, i ∈ mem.cont.upcoming mem.outbox :=
    fun i hi => (mem_upcoming (P := fun _ => False) (fun j hj => Or.inl (hsub.subset hj))
      hi).resolve_right id
  have hup : ∀ j ∈ mem.cont.upcoming mem.outbox,
      j ∈ mem.cont.upcoming mem'.outbox ∨ Sent (L ++ es) j :=
    fun j hj => (mem_upcoming hgive hj).imp_right hmono
  have hdisk : ∀ j ∈ disk.outbox, j ∈ disk'.outbox ∨ Sent (L ++ es) j :=
    fun j hj => (hd.outbox j hj).imp_right hmono
  constructor
  · exact h.sorted.sublist hsub
  · exact fun state hc => h.loaded state (hb.cont ▸ hc)
  · exact h.closed.step (fun i hi => Or.inl (hsub.subset hi))
      (fun j hj => (hgive j hj).imp_right hmono) (hnone _)
  · rw [hb.cont]
    exact h.upcoming.step (fun i hi => Or.inl (hback i hi)) hup (hnone _)
  · rw [hb.cont, hb.trip]
    exact fun t ht => (h.trip t ht).step hup (hnone _)
  · rw [hb.cont]
    exact fun t ht => (h.trips t ht).step hup (hnone _)
  · rw [hb.cont, hb.trip]
    exact fun hclears t ht => (h.stored hclears t ht).step hdisk (hnone _)
  · rw [hb.cont]
    exact fun t ht => (h.storedTrips t ht).step hdisk (hnone _)
  · exact hsending
  · exact hdeleting
  · intro state hc
    obtain ⟨hitems, htrips⟩ := h.forget state (hb.cont ▸ hc)
    exact ⟨fun i hi => hitems i (hd.subset i hi), fun t ht => htrips t (hd.trips t ht)⟩

/-- So too when the memory stays as it is. -/
theorem MemQueue.after (h : MemQueue L disk mem) (hq : queuedItems es = [])
    (hd : Drained L disk disk') : MemQueue (L ++ es) disk' mem :=
  h.quiet (Mem.Beside.refl _) (List.Sublist.refl _) (fun _ hj => Or.inl hj) hq hd
    (fun item token hs => (h.sending item token hs).mono (List.subset_append_left _ _))
    fun key ok hs => exists_sent_append (h.deleting key ok hs)

end Quiet

/-! ## The upload pass -/

section Upload

variable {L : List (Effect K)} {disk : StoredState K} {mem : Mem K} {out : Out K}

/-- What was deleted from the storage was sent. -/
theorem MemQueue.purge (h : MemQueue L disk mem) (hlog : LedgerOk L)
    (hqueued : ∀ i ∈ mem.outbox, i ∈ queuedItems L) {outbox : List (OutboxItem K)}
    (ho : mem.Purge outbox) : ∀ j ∈ mem.outbox, j ∈ outbox ∨ Sent L j := by
  intro j hj
  rcases ho with rfl | ⟨key, hd, rfl⟩
  · exact Or.inl hj
  · obtain ⟨item, rfl, token, hitem⟩ := h.deleting key true hd
    by_cases hkey : j.key = item.key
    · rw [hlog.eq_of_key (hqueued j hj) (hlog.sent item token hitem) hkey]
      exact Or.inr ⟨token, hitem⟩
    · exact Or.inl (List.mem_filter.mpr ⟨hj, decide_eq_true hkey⟩)

/-- **The head of a closed outbox is the next item of its trip.** -/
theorem requestOk_head {item : OutboxItem K} {rest : List (OutboxItem K)} {token : String}
    (hlog : LogQueue L) (hsorted : Sorted (item :: rest)) (hclosed : Closed L (item :: rest))
    (hitem : item ∈ queuedItems L) : RequestOk L (.send item token) := by
  intro i token' he
  obtain ⟨rfl, -⟩ := Effect.send.inj he
  refine ⟨hitem, fun j hj hlt => ?_⟩
  by_contra hs
  rcases List.mem_cons.mp (hclosed item List.mem_cons_self j hj hlt hs) with rfl | hrest
  · exact lt_irrefl _ hlt
  · have hle := hlog.stamps item hitem j hj hlt hs
    have hlt' := createdAt_lt_of_outboxOrder (mem_tripItems.mp hj).2.symm hlt
      ((List.pairwise_cons.mp hsorted).1 j hrest)
    omega

/-- The storage after the deletion of what was sent. -/
theorem drained_delete {item : OutboxItem K} {token : String} (ok : Bool) (hlog : LedgerOk L)
    (hdisk : ∀ i ∈ disk.outbox, i ∈ queuedItems L) (hitem : Effect.send item token ∈ L) :
    Drained L disk (Effect.onDisk disk
      (.apply { StorageOps.nop with deleteOutbox := [item.key] } ok)) := by
  cases ok
  · exact Drained.refl L disk
  · refine ⟨fun j hj => ?_, fun j hj => (List.mem_filter.mp hj).1, fun t ht => ?_⟩
    · by_cases hkey : j.key = item.key
      · rw [hlog.eq_of_key (hdisk j hj) (hlog.sent item token hitem) hkey]
        exact Or.inr ⟨token, hitem⟩
      · exact Or.inl (List.mem_filter.mpr ⟨hj, decide_eq_true fun hmem =>
          hkey (List.mem_singleton.mp hmem)⟩)
    · exact (StoredState.mem_trips_apply ht).1.resolve_left List.not_mem_nil

/-- The storage after a write of the settings. -/
theorem drained_settings (settings : Option DeviceSettings) (ok : Bool) :
    Drained L disk (Effect.onDisk disk
      (.apply { StorageOps.nop with settings := some settings } ok)) := by
  cases ok
  · exact Drained.refl L disk
  · exact ⟨fun j hj => Or.inl (List.mem_filter.mpr ⟨hj, decide_eq_true List.not_mem_nil⟩),
      fun j hj => (List.mem_filter.mp hj).1, fun t ht => (List.mem_filter.mp ht).1⟩

/-- A request leaves. -/
theorem sent_queue {mem' : Mem K} {item : OutboxItem K} {rest : List (OutboxItem K)}
    {token : String} (hbooks : LedgerOk L) (hledger : MemLedger L mem) (hlog : LogQueue L)
    (hmem : MemQueue L disk mem) (hdisk : DiskQueue L disk) (hb : mem.Beside mem')
    (ho : mem.Purge mem'.outbox) (hi : mem'.outbox = item :: rest)
    (hd : mem'.drain = .sending item token) : StepQueue L disk (mem', [.send item token]) := by
  have hpurge := hmem.purge hbooks hledger.outbox ho
  have hclosed : Closed (L ++ []) mem'.outbox :=
    hmem.closed.step (fun i hi => Or.inl (ho.sublist.subset hi))
      (fun j hj => (hpurge j hj).imp_right (Sent.mono (List.subset_append_left _ _)))
      fun _ hj => absurd hj List.not_mem_nil
  rw [List.append_nil, hi] at hclosed
  have hsorted : Sorted (item :: rest) := hi ▸ hmem.sorted.sublist ho.sublist
  have hitem : item ∈ queuedItems L :=
    hledger.outbox item (ho.sublist.subset (hi ▸ List.mem_cons_self))
  have hsent : Sent (L ++ [.send item token]) item :=
    ⟨token, List.mem_append_right _ (List.mem_singleton_self _)⟩
  refine ⟨hlog.quiet rfl ⟨requestOk_head hlog hsorted hclosed hitem, trivial⟩, ?_,
    hdisk.quiet rfl (Drained.refl L disk)⟩
  refine hmem.quiet hb ho.sublist hpurge rfl (Drained.refl L disk) (fun item' token' h => ?_)
    fun key ok h => ?_
  · rw [hd] at h
    obtain ⟨rfl, -⟩ := Drain.sending.inj h
    exact hsent
  · rw [hd] at h
    cases h

/-- An answer arrives, and the upload pass waits for a write that puts nothing. -/
theorem answered_queue {mem' : Mem K} {token : String} {status : ℕ} {ops : StorageOps K}
    {ok : Bool} (hlog : LogQueue L) (hmem : MemQueue L disk mem) (hdisk : DiskQueue L disk)
    (hb : mem.Beside mem') (ho : mem'.outbox = mem.outbox) (hpt : ops.putTrips = [])
    (hpo : ops.putOutbox = []) (hgone : Drained L disk (Effect.onDisk disk (.apply ops ok)))
    (hsending : ∀ item token, mem'.drain ≠ .sending item token)
    (hdeleting : ∀ key ok, mem'.drain = .deleting key ok → ∃ item, item.key = key ∧ Sent L item) :
    StepQueue L disk (mem', [.answered token status, .apply ops ok]) := by
  have hq : queuedItems [Effect.answered token status, .apply ops ok] = [] :=
    queuedItems_quiet (quiet_answered hpt hpo)
  refine ⟨hlog.quiet hq (eachAfter_requestOk fun i token h => ?_), ?_, hdisk.quiet hq hgone⟩
  · rcases List.mem_pair.mp h with h | h <;> cases h
  · refine hmem.quiet hb (ho ▸ List.Sublist.refl _) (fun j hj => Or.inl (ho ▸ hj)) hq hgone
      (fun item token h => absurd h (hsending item token))
      fun key ok h => exists_sent_append (hdeleting key ok h)

/-- **The upload pass and the timer.** -/
theorem upload_queue (hbooks : LedgerOk L) (hledger : MemLedger L mem)
    (hstored : DiskLedger L disk) (hlog : LogQueue L) (hmem : MemQueue L disk mem)
    (hdisk : DiskQueue L disk) (h : Upload mem out) : StepQueue L disk out := by
  cases h with
  | quiet hb hs ho hd hdel hes =>
    rename_i mem' es
    have hq : queuedItems es = [] := List.flatMap_eq_nil_iff.mpr fun e he => by
      rcases hes e he with rfl | ⟨token, status, rfl⟩ <;> rfl
    have hkeep : es.foldl Effect.onDisk disk = disk := by
      refine foldl_invariant (I := fun d => d = disk) (fun d e he hd => ?_) rfl
      rcases hes e he with rfl | ⟨token, status, rfl⟩ <;> exact hd
    have hsend : ∀ i token, Effect.send i token ∉ es := by
      intro i token hi
      rcases hes _ hi with h | ⟨_, _, h⟩ <;> cases h
    refine ⟨hlog.quiet hq (eachAfter_requestOk hsend), ?_, ?_⟩
    · refine hmem.quiet hb ho.sublist (hmem.purge hbooks hledger.outbox ho) hq
        (hkeep.symm ▸ Drained.refl L disk) (fun item token h => ?_) fun key ok h => ?_
      · rw [h] at hd
        exact absurd hd (by simp [Drain.items])
      · exact absurd h (hdel key ok)
    · exact hdisk.quiet hq (hkeep.symm ▸ Drained.refl L disk)
  | send hb hs hs' ho hi hd => exact sent_queue hbooks hledger hlog hmem hdisk hb ho hi hd
  | delete hb hs ho hd hd' =>
    obtain ⟨token', hitem⟩ := hmem.sending _ _ hd
    refine answered_queue hlog hmem hdisk hb ho rfl rfl
      (drained_delete _ hbooks hstored.outbox hitem) (fun item token h => ?_) fun key ok h => ?_
    · rw [hd'] at h
      cases h
    · rw [hd'] at h
      obtain ⟨rfl, -⟩ := Drain.deleting.inj h
      exact ⟨_, rfl, token', hitem⟩
  | mark hb hd hs hs' ho hd' =>
    refine answered_queue hlog hmem hdisk hb ho rfl rfl (drained_settings _ _)
      (fun item token h => ?_) fun key ok h => ?_
    · rw [hd'] at h
      cases h
    · rw [hd'] at h
      cases h
  | busy hb hs ho hd =>
    refine ⟨hlog.quiet rfl trivial, ?_, hdisk.quiet rfl (Drained.refl L disk)⟩
    exact hmem.quiet hb (ho ▸ List.Sublist.refl _) (fun j hj => Or.inl (ho ▸ hj)) rfl
      (Drained.refl L disk)
      (fun item token h => (hmem.sending item token (hd ▸ h)).mono (List.subset_append_left _ _))
      fun key ok h => exists_sent_append (hmem.deleting key ok (hd ▸ h))

end Upload

/-! ## Steps that seal -/

section Writes

variable {L es : List (Effect K)} {disk : StoredState K} {mem mem' : Mem K}
  {loaded : List (TripRecord K)} {now : ℕ → ℤ} {t : TripRecord K} {s : Sealing K}
  {tail : List (OutboxItem K)} {ops : StorageOps K} {ok : Bool} {a b : List (OutboxItem K)}
  {tripId : String}

/-- `b` is `a` with what `es` has queued. -/
def Grown (es : List (Effect K)) (a b : List (OutboxItem K)) : Prop :=
  ∀ i, i ∈ b ↔ i ∈ a ∨ i ∈ queuedItems es

theorem Holds.grow (h : Holds L a tripId) (hg : Grown es a b) : Holds (L ++ es) b tripId :=
  h.step (fun j hj => Or.inl ((hg j).mpr (Or.inl hj))) fun j hj => (hg j).mpr (Or.inr hj)

theorem Closed.grow (h : Closed L a) (hid : Holds L a tripId)
    (hes : ∀ i ∈ queuedItems es, i.key.tripId = tripId) (hg : Grown es a b) :
    Closed (L ++ es) b := by
  refine h.step (fun i hi => ?_) (fun j hj => Or.inl ((hg j).mpr (Or.inl hj)))
    fun j hj => (hg j).mpr (Or.inr hj)
  exact ((hg i).mp hi).imp_right fun hi => (hes i hi).symm ▸ hid

theorem Writes.queued_tripId (hw : Writes now t s tail ops) (ok : Bool) :
    ∀ i ∈ queuedItems [Effect.sealed t s, .apply ops ok], i.key.tripId = t.tripId := by
  intro i hi
  cases ok
  · exact absurd hi List.not_mem_nil
  · rw [queuedItems_write] at hi
    exact hw.tripIds i hi

/-- The storage takes in what is queued. -/
theorem grown_write (hdel : ops.deleteOutbox = [])
    (hlog : LedgerOk (L ++ [.sealed t s, .apply ops ok]))
    (hstored : DiskLedger (L ++ [.sealed t s, .apply ops ok])
      ([Effect.sealed t s, .apply ops ok].foldl Effect.onDisk disk))
    (hdisk : ∀ i ∈ disk.outbox, i ∈ queuedItems L) :
    Grown [Effect.sealed t s, .apply ops ok] disk.outbox
      ([Effect.sealed t s, .apply ops ok].foldl Effect.onDisk disk).outbox := by
  cases ok
  · exact fun i => ⟨Or.inl, fun h => h.resolve_right List.not_mem_nil⟩
  · intro i
    rw [queuedItems_write]
    constructor
    · exact fun hi => (StoredState.mem_outbox_apply hi).symm
    · intro hi
      obtain ⟨c, hc, hkey⟩ := exists_mem_foldl_put OutboxItem.key hi.symm
      have hmem : c ∈ (disk.apply ops).outbox :=
        List.mem_filter.mpr ⟨hc, decide_eq_true (by rw [hdel]; exact List.not_mem_nil)⟩
      have hqueued : i ∈ queuedItems (L ++ [.sealed t s, .apply ops true]) := by
        rw [queuedItems_append, queuedItems_write]
        exact List.mem_append.mpr (hi.imp_left (hdisk i))
      rwa [← hlog.eq_of_key (hstored.outbox c hmem) hqueued hkey]

/-- **The stamps of a sealing.** They increase, and begin after what is unsent of the trip. -/
theorem LogQueue.write (h : LogQueue L) (hw : Writes now t s tail ops)
    (hlog : LedgerOk (L ++ [.sealed t s, .apply ops ok]))
    (hstamps : ops.putOutbox.map OutboxItem.createdAt = (List.range ops.putOutbox.length).map now)
    (hnow : ∀ m n, m ≤ n → now m ≤ now n)
    (hpast : ∀ j ∈ tripItems L t.tripId, ¬ Sent L j → j.createdAt ≤ now 0) :
    LogQueue (L ++ [.sealed t s, .apply ops ok]) := by
  have hsend : ∀ i token, Effect.send i token ∉ [Effect.sealed t s, .apply ops ok] := by
    intro i token hi
    rcases List.mem_pair.mp hi with h | h <;> cases h
  cases ok
  · exact h.quiet rfl (eachAfter_requestOk hsend)
  refine ⟨eachAfter_append.mpr ⟨h.requests, eachAfter_requestOk hsend⟩, fun i hi j hj hlt hs => ?_⟩
  have hstamp : ∀ n (hn : n < ops.putOutbox.length), ops.putOutbox[n].createdAt = now n := by
    intro n hn
    have hget := congrArg (fun l : List ℤ => l[n]?) hstamps
    simpa [hn] using hget
  have hslots := hlog.slots t.tripId
  rw [tripItems_append, hw.same, ← hw.outbox, List.pairwise_append] at hslots
  rw [queuedItems_append, queuedItems_write] at hi
  rw [tripItems_append] at hj
  rcases List.mem_append.mp hi with hi | hi
  · rcases List.mem_append.mp hj with hj | hj
    · exact h.stamps i hi j hj hlt (not_sent_left hs)
    · -- what is queued now comes later
      have hid : i.key.tripId = t.tripId := by
        by_contra hne
        rw [hw.other hne] at hj
        exact List.not_mem_nil hj
      rw [hid, hw.same, ← hw.outbox] at hj
      exact absurd hlt (hslots.2.2 i (mem_tripItems.mpr ⟨hi, hid⟩) j hj).asymm
  · have hid := hw.tripIds i hi
    obtain ⟨m, hm, rfl⟩ := List.mem_iff_getElem.mp hi
    rw [hid] at hj
    rcases List.mem_append.mp hj with hj | hj
    · rw [hstamp m hm]
      exact (hpast j hj (not_sent_left hs)).trans (hnow 0 m (Nat.zero_le m))
    · rw [hw.same, ← hw.outbox] at hj
      obtain ⟨n, hn, rfl⟩ := List.mem_iff_getElem.mp hj
      have hnm : n ≤ m := by
        by_contra hmn
        exact hlt.asymm (List.pairwise_iff_getElem.mp hslots.2.1 m n hm hn (by omega))
      rw [hstamp m hm, hstamp n hn]
      exact hnow n m hnm

/-- **A sealing and its write.** -/
theorem write_queue (hready : ReadyQueue L disk mem loaded) (hlog : LogQueue L)
    (hdisk : DiskQueue L disk) (hw : Writes now t s tail ops)
    (hstamps : ops.putOutbox.map OutboxItem.createdAt = (List.range ops.putOutbox.length).map now)
    (hnow : ∀ m n, m ≤ n → now m ≤ now n)
    (hpast : ∀ j ∈ tripItems L t.tripId, ¬ Sent L j → j.createdAt ≤ now 0)
    (hdel : ops.deleteOutbox = []) (hputs : ∀ t' ∈ ops.putTrips, t'.tripId = t.tripId)
    (hmemQueued : ∀ i ∈ mem.outbox, i ∈ queuedItems L)
    (hdiskQueued : ∀ i ∈ disk.outbox, i ∈ queuedItems L)
    (hbooks : StepLedger L disk (mem', [.sealed t s, .apply ops ok]))
    (hholds : Holds L mem.outbox t.tripId) (hholds' : Holds L disk.outbox t.tripId)
    (ho : mem'.outbox = mem.outbox) (hd : mem'.drain = mem.drain)
    (hup : Grown [.sealed t s, .apply ops ok] mem.outbox (mem'.cont.upcoming mem'.outbox))
    (htrip : ∀ t' ∈ mem'.trip, t'.tripId = t.tripId ∨ t' ∈ mem.trip)
    (htrips : ∀ t' ∈ mem'.cont.trips, t' ∈ loaded)
    (hload : ∀ state, mem'.cont ≠ .initLoaded (some state))
    (hforget : ∀ state, mem'.cont ≠ .forgetLoaded (some state)) :
    StepQueue L disk (mem', [.sealed t s, .apply ops ok]) := by
  have hgrown := grown_write hdel hbooks.log hbooks.disk hdiskQueued
  refine ⟨hlog.write hw hbooks.log hstamps hnow hpast, ?_, ?_⟩
  · refine ⟨ho ▸ hready.sorted, fun state hc => absurd hc (hload state), ?_,
      hready.closed.grow hholds (hw.queued_tripId ok) hup, fun t' ht' => ?_,
      fun t' ht' => (hready.trips t' (htrips t' ht')).grow hup, fun _ t' ht' => ?_,
      fun t' ht' => (hready.storedTrips t' (htrips t' ht')).grow hgrown,
      fun item token h =>
        (hready.sending item token (hd ▸ h)).mono (List.subset_append_left _ _),
      fun key ok h => exists_sent_append (hready.deleting key ok (hd ▸ h)),
      fun state hc => absurd hc (hforget state)⟩
    · rw [ho]
      exact hready.closed.later hbooks.log hmemQueued
    · rcases htrip t' ht' with hid | ht'
      · exact hid ▸ hholds.grow hup
      · exact (hready.trip t' ht').grow hup
    · rcases htrip t' ht' with hid | ht'
      · exact hid ▸ hholds'.grow hgrown
      · exact (hready.stored t' ht').grow hgrown
  · refine ⟨hdisk.closed.grow hholds' (hw.queued_tripId ok) hgrown, fun t' ht' => ?_⟩
    cases ok
    · exact (hdisk.trips t' ht').grow hgrown
    · rcases (StoredState.mem_trips_apply ht').1 with ht' | ht'
      · exact hputs t' ht' ▸ hholds'.grow hgrown
      · exact (hdisk.trips t' ht').grow hgrown

end Writes

/-! ## Operations -/

section Operations

variable [FloorRing K] {opts : RecorderOptions K} {env : Env K} {L : List (Effect K)}
  {disk : StoredState K} {mem mem₁ mem' : Mem K} {loaded : List (TripRecord K)}
  {t t' : TripRecord K} {s : Sealing K} {e : Effect K}

/-- The stamps of `env` increase, and begin after what is unsent of the trip. -/
structure StampsAfter (L : List (Effect K)) (env : Env K) (tripId : String) : Prop where
  steady : ∀ m n, m ≤ n → env.stamp m ≤ env.stamp n
  past : ∀ j ∈ tripItems L tripId, ¬ Sent L j → j.createdAt ≤ env.stamp 0

theorem finalItems_stamps {arrived : Bool} {endedAt : ℤ} :
    (finalItems opts env t arrived endedAt).map OutboxItem.createdAt =
      (List.range (finalItems opts env t arrived endedAt).length).map env.stamp := by
  unfold finalItems
  simp only
  rw [List.map_append, (sealFixes_numbered t).stamps, List.length_append, List.length_singleton,
    List.range_succ, List.map_append]
  rfl

/-- `finalize`. -/
theorem finalize_queue {arrived : Bool} {endedAt : ℤ} {next : After K}
    (hready : ReadyQueue L disk mem loaded) (hlog : LogQueue L) (hdisk : DiskQueue L disk)
    (hstamps : StampsAfter L env t.tripId)
    (hmemQueued : ∀ i ∈ mem.outbox, i ∈ queuedItems L)
    (hdiskQueued : ∀ i ∈ disk.outbox, i ∈ queuedItems L) (ho : mem'.outbox = mem.outbox)
    (hd : mem'.drain = mem.drain)
    (hbooks : StepLedger L disk (finalize opts env mem' t arrived endedAt next))
    (hholds : Holds L mem.outbox t.tripId) (hholds' : Holds L disk.outbox t.tripId)
    (htrip : ∀ t' ∈ mem'.trip, t'.tripId = t.tripId ∨ t' ∈ mem.trip)
    (htrips : ∀ t' ∈ next.trips, t' ∈ loaded) :
    StepQueue L disk (finalize opts env mem' t arrived endedAt next) := by
  obtain ⟨tail, hw⟩ : ∃ tail, Writes env.stamp t (sealFixes opts env.stamp t) tail
      { StorageOps.nop with
        putOutbox := finalItems opts env t arrived endedAt, deleteTrips := [t.tripId] } :=
    finalItems_writes _ rfl
  refine write_queue hready hlog hdisk hw finalItems_stamps hstamps.steady hstamps.past rfl
    (fun _ ht' => absurd ht' List.not_mem_nil) hmemQueued hdiskQueued hbooks hholds hholds' ho hd
    (fun i => ?_) htrip htrips (by simp) (by simp)
  simp only [← ho]
  cases env.ok
  · exact ⟨Or.inl, fun h => h.resolve_right List.not_mem_nil⟩
  · rw [queuedItems_write]
    exact List.mem_append

theorem Advance.stamps (ha : Advance opts env t e t' s) :
    s.into.map OutboxItem.createdAt = (List.range s.into.length).map env.stamp :=
  (ha.writes { (StorageOps.nop : StorageOps K) with putOutbox := s.into } rfl).1.numbered.stamps

/-- What an advance says first queues, stores and sends nothing. -/
theorem Advance.effect (ha : Advance opts env t e t' s) (disk : StoredState K) :
    queuedItems [e] = [] ∧ e.onDisk disk = disk ∧ t'.tripId = t.tripId ∧
      ∀ i token, Effect.send i token ∉ [e] := by
  cases ha <;> exact ⟨rfl, rfl, rfl, fun _ _ h => by cases List.mem_singleton.mp h⟩

omit [FloorRing K] in
theorem ReadyQueue.quiet {es : List (Effect K)} (h : ReadyQueue L disk mem loaded)
    (hq : queuedItems es = []) : ReadyQueue (L ++ es) disk mem loaded := by
  have hkeep : ∀ {a : List (OutboxItem K)} {tripId}, Holds L a tripId → Holds (L ++ es) a tripId :=
    fun hh => hh.step (fun _ hj => Or.inl hj) fun _ hj => absurd (hq ▸ hj) List.not_mem_nil
  refine ⟨h.sorted, ?_, fun t ht => hkeep (h.trip t ht), fun t ht => hkeep (h.trips t ht),
    fun t ht => hkeep (h.stored t ht), fun t ht => hkeep (h.storedTrips t ht),
    fun item token hd => (h.sending item token hd).mono (List.subset_append_left _ _),
    fun key ok hd => exists_sent_append (h.deleting key ok hd)⟩
  exact h.closed.step (fun _ hi => Or.inl hi) (fun _ hj => Or.inl hj)
    fun _ hj => absurd (hq ▸ hj) List.not_mem_nil

omit [FloorRing K] in
theorem StampsAfter.quiet {es : List (Effect K)} {tripId : String} (h : StampsAfter L env tripId)
    (hq : queuedItems es = []) : StampsAfter (L ++ es) env tripId := by
  refine ⟨h.steady, fun j hj hs => h.past j ?_ (not_sent_left hs)⟩
  rwa [tripItems_append, tripItems_eq_nil hq, List.append_nil] at hj

/-- A fix or a reroute. -/
theorem advance_queue (hready : ReadyQueue L disk mem loaded) (hlog : LogQueue L)
    (hdisk : DiskQueue L disk) (ht : mem.trip = some t)
    (ha : Advance opts env t e t' s) (hstamps : StampsAfter L env t.tripId)
    (hmemQueued : ∀ i ∈ mem.outbox, i ∈ queuedItems L)
    (hdiskQueued : ∀ i ∈ disk.outbox, i ∈ queuedItems L)
    (hbooks : StepLedger L disk ({ mem with trip := some s.trip, cont := .queued s.into env.ok },
      [e, .sealed t' s, .apply { (StorageOps.nop : StorageOps K) with
        putTrips := [s.trip]
        putOutbox := s.into } env.ok])) :
    StepQueue L disk ({ mem with trip := some s.trip, cont := .queued s.into env.ok },
      [e, .sealed t' s, .apply { (StorageOps.nop : StorageOps K) with
        putTrips := [s.trip]
        putOutbox := s.into } env.ok]) := by
  obtain ⟨hq, hkeep, hid, hsend⟩ := ha.effect disk
  obtain ⟨hw, -⟩ := ha.writes { (StorageOps.nop : StorageOps K) with
    putTrips := [s.trip], putOutbox := s.into } rfl
  have hL : ∀ es : List (Effect K), L ++ e :: es = L ++ [e] ++ es :=
    fun es => by rw [List.append_assoc]; rfl
  have hsame : ∀ i ∈ queuedItems L, i ∈ queuedItems (L ++ [e]) :=
    fun _ => subset_queuedItems_append
  have hready' := hready.quiet hq
  obtain ⟨hlog', hmem', hdisk'⟩ := hbooks
  rw [hL] at hlog' hmem' hdisk'
  rw [List.foldl_cons, hkeep] at hdisk'
  have hafter : StampsAfter (L ++ [e]) env t'.tripId := hid ▸ hstamps.quiet hq
  have hgrown : Grown [Effect.sealed t' s, .apply { (StorageOps.nop : StorageOps K) with
      putTrips := [s.trip], putOutbox := s.into } env.ok] mem.outbox
      ((Cont.queued s.into env.ok).upcoming mem.outbox) := by
    intro i
    cases env.ok
    · exact ⟨Or.inl, fun h => h.resolve_right List.not_mem_nil⟩
    · rw [queuedItems_write]
      exact List.mem_append
  obtain ⟨hqueue, hmemory, hstorage⟩ : StepQueue (L ++ [e]) disk
      ({ mem with trip := some s.trip, cont := .queued s.into env.ok },
        [.sealed t' s, .apply { (StorageOps.nop : StorageOps K) with
          putTrips := [s.trip]
          putOutbox := s.into } env.ok]) := write_queue hready'
    (hlog.quiet hq (eachAfter_requestOk hsend)) (hdisk.quiet hq (Drained.refl L disk)) hw ha.stamps
    hafter.steady hafter.past rfl
    (fun t'' ht'' => List.mem_singleton.mp ht'' ▸ hw.numbered.tripId)
    (fun i hi => hsame i (hmemQueued i hi)) (fun i hi => hsame i (hdiskQueued i hi))
    ⟨hlog', hmem', hdisk'⟩ (hid ▸ hready'.trip t ht) (hid ▸ hready'.stored t ht) rfl rfl
    hgrown (fun t'' ht'' => Or.inl (Option.mem_some.mp ht'' ▸ hw.numbered.tripId))
    (fun t'' ht'' => absurd ht'' List.not_mem_nil) (by simp) (by simp)
  rw [← hL] at hqueue hmemory hstorage
  rw [← hkeep, ← List.foldl_cons] at hstorage hmemory
  exact ⟨hqueue, hmemory, hstorage⟩

omit [FloorRing K] in
/-- A trip starts. It has no items yet. -/
theorem startTrip_queue {route : RouteAlternative K} {destination : Option (LatLon K)}
    (hready : ReadyQueue L disk mem loaded) (hlog : LogQueue L) (hdisk : DiskQueue L disk)
    (hfresh : tripItems L env.tripId = []) :
    StepQueue L disk
      ({ mem with trip := some (newTrip env route destination), cont := .starting env.ok },
        [.follow env.tripId route,
          .apply { StorageOps.nop with putTrips := [newTrip env route destination] } env.ok]) := by
  have hq : queuedItems [Effect.follow env.tripId route,
      .apply { StorageOps.nop with putTrips := [newTrip env route destination] } env.ok] = [] := by
    cases env.ok <;> rfl
  have hsend : ∀ i token, Effect.send i token ∉ [Effect.follow env.tripId route,
      .apply { StorageOps.nop with putTrips := [newTrip env route destination] } env.ok] := by
    intro i token hi
    rcases List.mem_pair.mp hi with h | h <;> cases h
  have hholds : ∀ outbox, Holds L outbox env.tripId := by
    intro outbox j hj
    rw [hfresh] at hj
    exact absurd hj List.not_mem_nil
  have hmem : MemQueue L disk { mem with
      trip := some (newTrip env route destination), cont := .starting env.ok } := by
    refine ⟨hready.sorted, by simp, hready.closed, hready.closed, fun t ht => ?_,
      fun _ ht => absurd ht List.not_mem_nil, fun _ t ht => ?_,
      fun _ ht => absurd ht List.not_mem_nil, hready.sending, hready.deleting, by simp⟩
    · exact Option.mem_some.mp ht ▸ hholds _
    · exact Option.mem_some.mp ht ▸ hholds _
  generalize hes : [Effect.follow env.tripId route,
    .apply { StorageOps.nop with putTrips := [newTrip env route destination] } env.ok] = es at *
  have houtbox : (es.foldl Effect.onDisk disk).outbox = disk.outbox := by
    subst hes
    cases env.ok
    · rfl
    · exact List.filter_eq_self.mpr fun _ _ => decide_eq_true List.not_mem_nil
  have hkeep : ∀ {outbox : List (OutboxItem K)} {tripId : String}, Holds L outbox tripId →
      Holds (L ++ es) outbox tripId :=
    fun hh => hh.step (fun _ hj => Or.inl hj) fun _ hj => absurd (hq ▸ hj) List.not_mem_nil
  obtain ⟨h1, h2, h3, h4, h5, h6, h7, h8, h9, h10, h11⟩ := hmem.after hq (Drained.refl L disk)
  refine ⟨hlog.quiet hq (eachAfter_requestOk hsend), ⟨h1, h2, h3, h4, h5, h6, ?_, ?_, h9, h10, ?_⟩,
    ?_, fun t ht => ?_⟩
  · exact fun hc t ht => houtbox.symm ▸ h7 hc t ht
  · exact fun t ht => houtbox.symm ▸ h8 t ht
  · exact fun state hc => by cases hc
  · rw [houtbox]
    exact hdisk.closed.step (fun _ hi => Or.inl hi) (fun _ hj => Or.inl hj)
      fun _ hj => absurd (hq ▸ hj) List.not_mem_nil
  · rw [houtbox]
    have hmem : t = newTrip env route destination ∨ t ∈ disk.trips := by
      subst hes
      cases hok : env.ok
      · rw [hok] at ht
        exact Or.inr ht
      · rw [hok] at ht
        exact (StoredState.mem_trips_apply ht).1.imp_left List.mem_singleton.mp
    rcases hmem with rfl | ht
    · exact hkeep (hholds _)
    · exact hkeep (hdisk.trips t ht)

omit [FloorRing K] in
theorem no_send_apply (ops : StorageOps K) (ok : Bool) :
    ∀ (i : OutboxItem K) token, Effect.send i token ∉ [Effect.apply ops ok] := by
  intro i token hi
  cases List.mem_singleton.mp hi

omit [FloorRing K] in
/-- An operation suspends with a write that changes neither trips nor items. -/
theorem ReadyQueue.write {ops : StorageOps K} {ok : Bool} (h : ReadyQueue L disk mem loaded)
    (hlog : LogQueue L) (hdisk : DiskQueue L disk) (ht : mem'.trip = mem.trip)
    (ho : mem'.outbox = mem.outbox) (hd : mem'.drain = mem.drain)
    (hup : ∀ outbox, mem'.cont.upcoming outbox = outbox) (htrips : mem'.cont.trips = [])
    (hload : ∀ state, mem'.cont ≠ .initLoaded (some state))
    (hforget : ∀ state, mem'.cont ≠ .forgetLoaded (some state)) (hpt : ops.putTrips = [])
    (hpo : ops.putOutbox = []) (hdo : ops.deleteOutbox = []) :
    StepQueue L disk (mem', [.apply ops ok]) := by
  have hmem : MemQueue L disk mem' := h.hold ht ho hd hup htrips hload hforget
  have hq : queuedItems [Effect.apply ops ok] = [] :=
    queuedItems_quiet fun e he => List.mem_singleton.mp he ▸ quiet_apply hpt hpo
  have hgone : Drained L disk ([Effect.apply ops ok].foldl Effect.onDisk disk) := by
    cases ok
    · exact Drained.refl L disk
    · refine ⟨fun j hj => Or.inl (List.mem_filter.mpr ⟨?_, decide_eq_true ?_⟩), fun j hj => ?_,
        fun t ht => ?_⟩
      · rw [hpo]
        exact hj
      · rw [hdo]
        exact List.not_mem_nil
      · exact (StoredState.mem_outbox_apply hj).resolve_left (hpo ▸ List.not_mem_nil)
      · exact (StoredState.mem_trips_apply ht).1.resolve_left (hpt ▸ List.not_mem_nil)
  exact ⟨hlog.quiet hq (eachAfter_requestOk (no_send_apply ops ok)), hmem.after hq hgone,
    hdisk.quiet hq hgone⟩

omit [FloorRing K] in
/-- `forget` deletes all there is. -/
theorem forget_queue {state : StoredState K} {ok : Bool} (hmem : MemQueue L disk mem)
    (hlog : LogQueue L) (hdisk : DiskQueue L disk)
    (hc : mem.cont = .forgetLoaded (some state)) :
    StepQueue L disk ({ mem with cont := .forgetting ok },
      [.apply
        { settings := some none
          putTrips := []
          deleteTrips := state.trips.map TripRecord.tripId
          putOutbox := []
          deleteOutbox := state.outbox.map OutboxItem.key } ok]) := by
  obtain ⟨hitems, htrips⟩ := hmem.forget state hc
  have hready := hmem.prep (prep_forget hc)
  generalize hops : ({ settings := some none
                       putTrips := []
                       deleteTrips := state.trips.map TripRecord.tripId
                       putOutbox := []
                       deleteOutbox := state.outbox.map OutboxItem.key } : StorageOps K) = ops at *
  have hq : queuedItems [Effect.apply ops ok] = [] := by
    subst hops
    cases ok <;> rfl
  have hready' := hready.quiet hq
  have hbase : ∀ disk' : StoredState K,
      (ok = false → ∀ t ∈ mem.trip, Holds (L ++ [.apply ops ok]) disk'.outbox t.tripId) →
      MemQueue (L ++ [.apply ops ok]) disk' { mem with cont := .forgetting ok } :=
    fun disk' hst => ⟨hready'.sorted, by simp, hready'.closed, hready'.closed, hready'.trip,
      fun _ ht => absurd ht List.not_mem_nil, hst, fun _ ht => absurd ht List.not_mem_nil,
      hready'.sending, hready'.deleting, by simp⟩
  refine ⟨hlog.quiet hq (eachAfter_requestOk (no_send_apply ops ok)), hbase _ fun hok => ?_, ?_⟩
  · subst hok
    exact hready'.stored
  · cases ok
    · exact hdisk.quiet hq (Drained.refl L disk)
    · subst hops
      refine ⟨fun i hi => ?_, fun t ht => ?_⟩
      · obtain ⟨hmem, hdel⟩ := List.mem_filter.mp hi
        exact absurd (hitems i hmem) (of_decide_eq_true hdel)
      · obtain ⟨hmem, hdel⟩ := List.mem_filter.mp ht
        exact absurd (htrips t hmem) (of_decide_eq_true hdel)

omit [FloorRing K] in
theorem upcoming_of_failed {c : Cont K} (h : c.failed = true) (outbox : List (OutboxItem K)) :
    c.upcoming outbox = outbox ∧ c.clears = false := by
  cases c <;> simp_all [Cont.failed, Cont.upcoming, Cont.clears]

omit [FloorRing K] in
/-- The operation learns that its write was rejected. -/
theorem MemQueue.thrown (h : MemQueue L disk mem) (hlog : LogQueue L) (hdisk : DiskQueue L disk)
    (hc : mem.cont.failed = true) : StepQueue L disk mem.thrown := by
  obtain ⟨hup, hclears⟩ := upcoming_of_failed hc mem.outbox
  have htrip := h.trip
  rw [hup] at htrip
  have hidle : MemQueue L disk { mem with cont := .idle } :=
    ⟨h.sorted, by simp, h.closed, h.closed, htrip, fun _ ht => absurd ht List.not_mem_nil,
      fun _ => h.stored hclears, fun _ ht => absurd ht List.not_mem_nil, h.sending, h.deleting,
      by simp⟩
  have hsend : ∀ (i : OutboxItem K) token, Effect.send i token ∉ [Effect.rejected] := by
    intro i token hi
    cases List.mem_singleton.mp hi
  exact ⟨hlog.quiet rfl (eachAfter_requestOk hsend), hidle.after rfl (Drained.refl L disk),
    hdisk.quiet rfl (Drained.refl L disk)⟩

/-- A step of an operation may stamp items of these trips. -/
def Mem.stamped (mem : Mem K) : List (TripRecord K) :=
  mem.cont.trips.head?.toList ++ mem.trip.toList

omit [FloorRing K] in
theorem Prep.stamped_trip (hp : Prep mem mem₁ loaded) (hl : loaded = []) (ht : mem₁.trip = some t) :
    t ∈ mem.stamped := by
  have hmem : t ∈ mem.trip := by
    cases hp with
    | same _ _ _ _ _ _ htrip => exact htrip ▸ ht
    | loaded => exact ht
    | finalized =>
      rw [Mem.enqueue_trip] at ht
      exact (Option.mem_filter_iff.mp ht).1
    | queued =>
      rw [Mem.enqueue_trip] at ht
      exact ht
    | cleared => cases ht
  exact List.mem_append_right _ (Option.mem_toList.mpr hmem)

omit [FloorRing K] in
theorem Prep.stamped_loaded {rest : List (TripRecord K)} (hp : Prep mem mem₁ (t :: rest)) :
    t ∈ mem.stamped := by
  have hhead : mem.cont.trips.head? = some t := by
    generalize hl : t :: rest = loaded at hp
    cases hp with
    | same => cases hl
    | loaded hc =>
      rw [hc]
      exact congrArg List.head? hl.symm
    | finalized hc =>
      rw [hc]
      exact congrArg List.head? hl.symm
    | queued => cases hl
    | cleared => cases hl
  exact List.mem_append_left _ (Option.mem_toList.mpr hhead)

/-- **Every move keeps the queues.** -/
theorem move_queue {out : Out K} (hworld : LedgerOk L) (hledger : MemLedger L mem)
    (hstored : DiskLedger L disk) (hlog : LogQueue L) (hmem : MemQueue L disk mem)
    (hdisk : DiskQueue L disk) (hfresh : ¬ Started L env.tripId)
    (hstamps : ∀ t ∈ mem.stamped, StampsAfter L env t.tripId)
    (h : Move opts env disk mem out) : StepQueue L disk out := by
  have hbooks := move_ledger hworld hledger hstored hfresh h
  have hquiet : ∀ mem' : Mem K, MemQueue L disk mem' → StepQueue L disk (mem', []) := by
    intro mem' hmem'
    rw [← List.append_nil L] at hlog hmem' hdisk
    exact ⟨hlog, hmem', hdisk⟩
  cases h with
  | rest hc => exact hquiet mem hmem
  | thrown hc => exact hmem.thrown hlog hdisk hc
  | wait hp hl hc => exact hquiet _ ((hmem.prep hp).wait hdisk hc)
  | flush hp hl =>
    have hidle := (hmem.prep hp).wait hdisk .idle
    exact upload_queue hworld ((hledger.prep hp).wait hstored .idle) hstored hlog hidle hdisk
      (flush_upload (Mem.Beside.refl _) rfl rfl rfl)
  | closeOpen hp hl ht arrived hn hop =>
    have hready := hmem.prep hp
    refine finalize_queue hready hlog hdisk (hstamps _ (hp.stamped_trip hl ht))
      (hledger.prep hp).outbox hstored.outbox rfl rfl hbooks (hready.trip _ ht)
      (hready.stored _ ht) (fun t' ht' => Or.inl ?_) fun t' ht' => ?_
    · have hnum := fun t : TripRecord K => @sealFixes_numbered K _ _ opts env.stamp _ t
      rw [← Option.mem_some.mp ht', (hnum _).tripId]
    · rw [hn] at ht'
      exact absurd ht' List.not_mem_nil
  | closeLoaded hp =>
    have hready := hmem.prep hp
    exact finalize_queue hready hlog hdisk (hstamps _ hp.stamped_loaded)
      (hledger.prep hp).outbox hstored.outbox rfl rfl hbooks (hready.trips _ List.mem_cons_self)
      (hready.storedTrips _ List.mem_cons_self) (fun t' ht' => Or.inr ht')
      fun t' ht' => List.mem_cons_of_mem _ ht'
  | startTrip hp hl hop =>
    exact startTrip_queue (hmem.prep hp) hlog hdisk (hworld.fresh hfresh).1
  | advance hp hl hc hrec ht hop ha =>
    exact advance_queue (hmem.prep hp) hlog hdisk ht ha (hstamps _ (hp.stamped_trip hl ht))
      (hledger.prep hp).outbox hstored.outbox hbooks
  | settings hp hl hs hc =>
    refine (hmem.prep hp).write hlog hdisk rfl rfl rfl ?_ ?_ ?_ ?_ rfl rfl rfl <;>
      rcases hc with rfl | ⟨enabled, rfl⟩ <;> simp [Cont.upcoming, Cont.trips]
  | forget hc => exact forget_queue hmem hlog hdisk hc

end Operations

/-! ## Runs -/

section Run

variable [FloorRing K] {opts : RecorderOptions K} {w : World K} {e : Event K}

/-- The clock does not go back while a step stamps what it seals. What a step does not read of
`stamp` is free. -/
def Event.Steady : Event K → Prop
  | .opStep env => ∀ m n, m ≤ n → env.stamp m ≤ env.stamp n
  | _ => True

/-- Nor has it gone back behind an item of the trip that is queued and has yet to be sent. -/
def StampsBehind (w : World K) : Event K → Prop
  | .opStep env => ∀ mem ∈ w.mem, ∀ t ∈ mem.stamped,
      ∀ j ∈ tripItems w.log t.tripId, ¬ Sent w.log j → j.createdAt ≤ env.stamp 0
  | _ => True

instance decStampsBehind (w : World K) : (e : Event K) → Decidable (StampsBehind w e)
  | .opStep env => inferInstanceAs (Decidable (∀ mem ∈ w.mem, ∀ t ∈ mem.stamped,
      ∀ j ∈ tripItems w.log t.tripId, ¬ Sent w.log j → j.createdAt ≤ env.stamp 0))
  | .call _ | .drainStep _ | .timer | .kill | .launch => isTrue trivial

/-- The clock agrees with the order of sealing. -/
def ClockForward (w : World K) (e : Event K) : Prop := e.Steady ∧ StampsBehind w e

/-- The queues of a world. -/
structure WorldQueue (w : World K) : Prop where
  log : LogQueue w.log
  mem : ∀ mem ∈ w.mem, MemQueue w.log w.disk mem
  disk : DiskQueue w.log w.disk

omit [FloorRing K] in
theorem WorldQueue.emit {out : Out K} (h : StepQueue w.log w.disk out) :
    WorldQueue (w.emit out) := by
  refine ⟨h.log, fun mem hmem => ?_, h.disk⟩
  rw [← Option.mem_some.mp hmem]
  exact h.mem

/-- **One event keeps the queues.** -/
theorem step_queue (hfresh : FreshId w e) (hclock : ClockForward w e) (hledger : WorldLedger w)
    (h : WorldQueue w) : WorldQueue (step opts w e) := by
  unfold step
  split
  · refine ⟨h.log, fun mem hmem => ?_, h.disk⟩
    rw [← Option.mem_some.mp hmem]
    exact ⟨List.Pairwise.nil, fun _ hc => (by cases hc), closed_nil, closed_nil,
      fun _ ht => absurd ht (Option.not_mem_none _), fun _ ht => absurd ht List.not_mem_nil,
      fun _ _ ht => absurd ht (Option.not_mem_none _), fun _ ht => absurd ht List.not_mem_nil,
      fun _ _ hd => (by cases hd), fun _ _ hd => (by cases hd), fun _ hc => (by cases hc)⟩
  · exact h
  · rename_i mem op hmem
    refine ⟨h.log, fun mem' hmem' => ?_, h.disk⟩
    rw [← Option.mem_some.mp hmem']
    obtain ⟨h1, h2, h3, h4, h5, h6, h7, h8, h9, h10, h11⟩ := h.mem mem hmem
    exact ⟨h1, h2, h3, h4, h5, h6, h7, h8, h9, h10, h11⟩
  · rename_i mem env hmem
    exact WorldQueue.emit (move_queue hledger.log (hledger.mem mem hmem) hledger.disk h.log
      (h.mem mem hmem) h.disk hfresh (fun t ht => ⟨hclock.1, hclock.2 mem hmem t ht⟩) opStep_move)
  · rename_i mem env hmem
    exact WorldQueue.emit (upload_queue hledger.log (hledger.mem mem hmem) hledger.disk h.log
      (h.mem mem hmem) h.disk (drainStep_upload env))
  · rename_i mem hmem
    exact WorldQueue.emit (upload_queue hledger.log (hledger.mem mem hmem) hledger.disk h.log
      (h.mem mem hmem) h.disk timerStep_upload)
  · exact ⟨h.log, fun mem hmem => absurd hmem (Option.not_mem_none mem), h.disk⟩
  · exact h

/-- The item of a request. -/
def Effect.request : Effect K → Option (OutboxItem K)
  | .send i _ => some i
  | _ => none

/-- Every request of a trip's item comes after a request of every item of the trip before it. -/
def RequestsInOrder (L : List (Effect K)) : Prop :=
  ∀ A i token B, L = A ++ .send i token :: B →
    ∀ j ∈ tripItems L i.key.tripId, j.key.slot.rank < i.key.slot.rank → Sent A j

omit [FloorRing K] in
theorem WorldQueue.requests (h : WorldQueue w) (hledger : LedgerOk w.log) :
    RequestsInOrder w.log := by
  intro A i token B hL j hj hlt
  have hrequest := h.log.requests
  rw [hL] at hrequest
  obtain ⟨hi, hbefore⟩ := hrequest.split i token rfl
  rw [List.nil_append] at hi hbefore
  rw [hL, tripItems_append] at hj
  rcases List.mem_append.mp hj with hj | hj
  · exact hbefore j hj hlt
  · -- what is queued later comes after it
    have hslots := hledger.slots i.key.tripId
    rw [hL, tripItems_append, List.pairwise_append] at hslots
    exact absurd hlt (hslots.2.2 i (mem_tripItems.mpr ⟨hi, rfl⟩) j hj).asymm

omit [FloorRing K] in
theorem worldQueue_init : WorldQueue (World.init : World K) := by
  refine ⟨⟨trivial, fun _ hi => absurd hi List.not_mem_nil⟩, fun mem hmem => ?_, closed_nil, ?_⟩
  · exact absurd hmem (Option.not_mem_none mem)
  · exact fun _ ht => absurd ht List.not_mem_nil

/-- **As long as the clock agrees, a trip's items go out in order, its end last.** Each has been
sent before anything after it is. -/
theorem requests_in_order (opts : RecorderOptions K) (events : List (Event K))
    (hfresh : Along (step opts) FreshId .init events)
    (hclock : Along (step opts) ClockForward .init events) :
    RequestsInOrder (run opts events).log := by
  have hstep : ∀ w e, FreshId w e ∧ ClockForward w e → WorldLedger w ∧ WorldQueue w →
      WorldLedger (step opts w e) ∧ WorldQueue (step opts w e) :=
    fun w e hcond h => ⟨step_ledger hcond.1 h.1, step_queue hcond.1 hcond.2 h.1 h.2⟩
  have hrun := (hfresh.and hclock).invariant hstep ⟨worldLedger_init, worldQueue_init⟩
  exact hrun.2.requests hrun.1.log

omit [FloorRing K] in
theorem requestsInOrder_iff {L : List (Effect K)} : RequestsInOrder L ↔
    ∀ n < L.length, ∀ i ∈ (L[n]?).bind Effect.request, ∀ j ∈ tripItems L i.key.tripId,
      j.key.slot.rank < i.key.slot.rank → Sent (L.take n) j := by
  constructor
  · intro h n hn i hi
    rw [List.getElem?_eq_getElem hn, Option.bind_some] at hi
    have hsplit : L = L.take n ++ L[n] :: L.drop (n + 1) := by simp
    cases he : L[n] with
    | send item token =>
      rw [he] at hi hsplit
      rw [← Option.some.inj hi]
      exact h _ _ _ _ hsplit
    | _ =>
      rw [he] at hi
      exact absurd hi (Option.not_mem_none i)
  · intro h A i token B hL
    have hn : L[A.length]? = some (.send i token) := by simp [hL]
    have htake : L.take A.length = A := by simp [hL]
    have hi := h A.length (by simp [hL]) i (by rw [hn]; rfl)
    rwa [htake] at hi

instance decRequestsInOrder (L : List (Effect K)) : Decidable (RequestsInOrder L) :=
  decidable_of_iff _ requestsInOrder_iff.symm

end Run

/-! ## A ride out of reach of the server -/

section Ride

/-- A write was rejected. -/
def Effect.isRejected : Effect ℚ → Bool
  | .rejected => true
  | _ => false

theorem rejected_mem_iff {L : List (Effect ℚ)} :
    Effect.rejected ∈ L ↔ L.any Effect.isRejected = true := by
  rw [List.any_eq_true]
  constructor
  · exact fun h => ⟨_, h, rfl⟩
  · rintro ⟨e, he, hr⟩
    cases e with
    | rejected => exact he
    | _ => exact absurd hr Bool.false_ne_true

instance decRejectedMem (L : List (Effect ℚ)) : Decidable (Effect.rejected ∈ L) :=
  decidable_of_iff _ rejected_mem_iff.symm

/-- A call whose steps read `stamp` from the clock for what they seal. -/
def rideAt (stamp : ℤ) (op : Op ℚ) (steps : ℕ) : List (Event ℚ) :=
  .call op :: List.replicate steps (.opStep { nextEnv with stamp := fun _ => stamp })

/-- Two chunks are sealed at 100, where the first request fails. When the trip ends, the clock reads
`stamp`. Then the server can be reached again. -/
def rideAway (stamp : ℤ) : List (Event ℚ) :=
  .launch :: rideOn (.optIn "token") 4 ++
    [.call (.startTrip shortRoute none), .opStep rideEnv, .opStep nextEnv] ++
    rideAt 100 (.addFix (rideFix 0 0)) 2 ++ rideAt 100 (.addFix (rideFix 60000 (5 / 1000))) 2 ++
    rideAt 100 (.addFix (rideFix 125000 (9 / 1000))) 2 ++ rideReply none ++
    rideAt 100 (.addFix (rideFix 185000 (13 / 1000))) 2 ++
    rideAt 100 (.addFix (rideFix 250000 (17 / 1000))) 2 ++ rideAt stamp (.endTrip true) 2 ++
    [.timer] ++ rideReply (some 200) ++ rideReply (some 200)

theorem rideAway_steady (stamp : ℤ) : ∀ e ∈ rideAway stamp, e.Steady := by
  simp [rideAway, rideOn, rideAt, rideReply, Event.Steady, rideEnv, nextEnv]

/-- The clock went back: the end goes out before the second chunk. -/
theorem end_before_chunk :
    Along (step rideOpts) FreshId .init (rideAway 50) ∧
      Effect.rejected ∉ (run rideOpts (rideAway 50)).log ∧
      (run rideOpts (rideAway 50)).log.filterMap Effect.requested =
        [⟨"ride", .chunk 0⟩, ⟨"ride", .tripEnd⟩, ⟨"ride", .chunk 0⟩, ⟨"ride", .chunk 1⟩] ∧
      ¬ RequestsInOrder (run rideOpts (rideAway 50)).log := by
  rw [run_eq_eval, step_eq_eval]
  decide +kernel

/-- The clock went forward. -/
theorem requests_in_order_away :
    (run rideOpts (rideAway 200)).log.filterMap Effect.requested =
        [⟨"ride", .chunk 0⟩, ⟨"ride", .chunk 0⟩, ⟨"ride", .chunk 1⟩, ⟨"ride", .tripEnd⟩] ∧
      RequestsInOrder (run rideOpts (rideAway 200)).log := by
  constructor
  · rw [run_eq_eval]
    decide +kernel
  · refine requests_in_order rideOpts (rideAway 200) ?_ ((along_of_forall ?_).and ?_)
    · rw [step_eq_eval]
      decide +kernel
    · exact rideAway_steady 200
    · rw [step_eq_eval]
      decide +kernel

end Ride

end RoutePlanner.Recorder
