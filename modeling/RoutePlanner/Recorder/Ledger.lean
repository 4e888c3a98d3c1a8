import Mathlib.Order.WithBot
import RoutePlanner.Recorder.Moves
import RoutePlanner.Recorder.Numbering

/-!
# The books of a trip

What a log says of one trip: the fixes accepted for it, and the items that writes which took effect
have queued for it. Both are read off the log in its order.

* `OpenTrip`: a trip whose record still goes on. What is queued and what is pending, together, were
  accepted in that order, and the numbers in use are below the next one.
* `Gapless`: every number below the next one is in use.
* `OpenTrip.queue`, `Gapless.queue`: a sealing and its write keep both.
* `LedgerOk`: what a log owes to itself. `LedgerOk.queue` is the one way items are queued.
-/

namespace RoutePlanner.Recorder

open RoutePlanner.Lib

variable {K : Type} [Field K] [LinearOrder K]

/-! ## Slots -/

/-- The place of a slot among those of its trip: by number, and the end last. -/
def Slot.rank : Slot → WithTop ℕ
  | .chunk n => n
  | .tripEnd => ⊤

theorem Slot.le_iff_rank {a b : Slot} : a.le b = true ↔ a.rank ≤ b.rank := by
  cases a <;> cases b <;> simp [Slot.le, Slot.rank]

/-! ## What a log says of a trip -/

/-- The items an effect queues. -/
def Effect.queued : Effect K → List (OutboxItem K)
  | .apply ops true => ops.putOutbox
  | _ => []

/-- The fixes an effect accepts for the trip. -/
def Effect.accepted (tripId : String) : Effect K → List (TraceFix K)
  | .accept id fix => if id = tripId then [fix] else []
  | _ => []

/-- The items queued, in the order of their writes. -/
def queuedItems (L : List (Effect K)) : List (OutboxItem K) := L.flatMap Effect.queued

/-- The items queued for the trip. -/
def tripItems (L : List (Effect K)) (tripId : String) : List (OutboxItem K) :=
  (queuedItems L).filter fun i => decide (i.key.tripId = tripId)

/-- The numbers of chunks, in their order. -/
def seqsOf (items : List (OutboxItem K)) : List ℕ :=
  items.filterMap fun i =>
    match i.key.slot with
    | .chunk seq => some seq
    | .tripEnd => none

/-- The numbers queued for the trip. -/
def tripSeqs (L : List (Effect K)) (tripId : String) : List ℕ := seqsOf (tripItems L tripId)

/-- The fixes accepted for the trip. -/
def accepts (L : List (Effect K)) (tripId : String) : List (TraceFix K) :=
  L.flatMap (Effect.accepted tripId)

/-- The fixes queued for the trip. -/
def tripFixes (L : List (Effect K)) (tripId : String) : List (TraceFix K) :=
  fixesOf (tripItems L tripId)

/-- The id was given to a trip. -/
def Started (L : List (Effect K)) (tripId : String) : Prop :=
  ∃ route, Effect.follow tripId route ∈ L

/-- The effect is a follow of the trip. -/
def Effect.follows (tripId : String) : Effect K → Bool
  | .follow id _ => decide (id = tripId)
  | _ => false

theorem started_iff {L : List (Effect K)} {tripId : String} :
    Started L tripId ↔ L.any (Effect.follows tripId) = true := by
  rw [List.any_eq_true]
  constructor
  · rintro ⟨route, h⟩
    exact ⟨_, h, decide_eq_true rfl⟩
  · rintro ⟨e, he, hf⟩
    cases e with
    | follow id route => exact ⟨route, of_decide_eq_true hf ▸ he⟩
    | _ => exact absurd hf Bool.false_ne_true

instance decStarted (L : List (Effect K)) (tripId : String) : Decidable (Started L tripId) :=
  decidable_of_iff _ started_iff.symm

section Logs

variable {L L' : List (Effect K)} {tripId : String} {i : OutboxItem K}

theorem queuedItems_append (L L' : List (Effect K)) :
    queuedItems (L ++ L') = queuedItems L ++ queuedItems L' := List.flatMap_append

theorem tripItems_append (L L' : List (Effect K)) (tripId : String) :
    tripItems (L ++ L') tripId = tripItems L tripId ++ tripItems L' tripId := by
  unfold tripItems
  rw [queuedItems_append, List.filter_append]

theorem accepts_append (L L' : List (Effect K)) (tripId : String) :
    accepts (L ++ L') tripId = accepts L tripId ++ accepts L' tripId := List.flatMap_append

theorem tripFixes_append (L L' : List (Effect K)) (tripId : String) :
    tripFixes (L ++ L') tripId = tripFixes L tripId ++ tripFixes L' tripId := by
  unfold tripFixes
  rw [tripItems_append, fixesOf_append]

theorem seqsOf_append (a b : List (OutboxItem K)) : seqsOf (a ++ b) = seqsOf a ++ seqsOf b :=
  List.filterMap_append

theorem tripSeqs_append (L L' : List (Effect K)) (tripId : String) :
    tripSeqs (L ++ L') tripId = tripSeqs L tripId ++ tripSeqs L' tripId := by
  unfold tripSeqs
  rw [tripItems_append, seqsOf_append]

theorem put_of_mem_queuedItems (h : i ∈ queuedItems L) : Put L i := by
  obtain ⟨e, he, hi⟩ := List.mem_flatMap.mp h
  unfold Effect.queued at hi
  split at hi
  · exact ⟨_, true, he, hi⟩
  · exact absurd hi List.not_mem_nil

theorem mem_tripItems : i ∈ tripItems L tripId ↔ i ∈ queuedItems L ∧ i.key.tripId = tripId := by
  simp [tripItems]

theorem mem_accepts {f : TraceFix K} : f ∈ accepts L tripId ↔ Effect.accept tripId f ∈ L := by
  unfold accepts
  rw [List.mem_flatMap]
  constructor
  · rintro ⟨e, he, hf⟩
    cases e with
    | accept id fix =>
      simp only [Effect.accepted] at hf
      split_ifs at hf with hid
      · rw [List.mem_singleton.mp hf, ← hid]
        exact he
      · exact absurd hf List.not_mem_nil
    | _ => exact absurd hf List.not_mem_nil
  · intro h
    exact ⟨_, h, by simp [Effect.accepted]⟩

theorem Started.mono (hL : L ⊆ L') (h : Started L tripId) : Started L' tripId :=
  have ⟨route, hroute⟩ := h
  ⟨route, hL hroute⟩

theorem subset_queuedItems_append (h : i ∈ queuedItems L) : i ∈ queuedItems (L ++ L') := by
  rw [queuedItems_append]
  exact List.mem_append_left _ h

/-- The items of one trip are all of them its own. -/
theorem filter_of_tripId {items : List (OutboxItem K)} (h : ∀ i ∈ items, i.key.tripId = tripId) :
    (items.filter fun i => decide (i.key.tripId = tripId)) = items :=
  List.filter_eq_self.mpr fun i hi => decide_eq_true (h i hi)

/-- No item of another trip is its own. -/
theorem filter_of_tripId_ne {items : List (OutboxItem K)} {other : String}
    (h : ∀ i ∈ items, i.key.tripId = tripId) (hne : other ≠ tripId) :
    (items.filter fun i => decide (i.key.tripId = other)) = [] :=
  List.filter_eq_nil_iff.mpr fun i hi => by simp [h i hi, hne.symm]

end Logs

/-! ## The trips -/

/-- A trip that goes on. -/
structure OpenTrip (L : List (Effect K)) (t : TripRecord K) : Prop where
  started : Started L t.tripId
  slots : ∀ i ∈ tripItems L t.tripId, ∃ n < t.nextSeq, i.key.slot = .chunk n
  kept : (tripFixes L t.tripId ++ t.pending).Sublist (accepts L t.tripId)

/-- The numbers in use are those below the next one. -/
def Gapless (L : List (Effect K)) (t : TripRecord K) : Prop :=
  tripSeqs L t.tripId = List.range t.nextSeq

section Trips

variable {L es : List (Effect K)} {t t' : TripRecord K}

/-- What queues nothing for the trip leaves it as it is. -/
theorem OpenTrip.mono (h : OpenTrip L t) (hes : tripItems es t.tripId = []) :
    OpenTrip (L ++ es) t := by
  have hitems : tripItems (L ++ es) t.tripId = tripItems L t.tripId := by
    rw [tripItems_append, hes, List.append_nil]
  refine ⟨h.started.mono (List.subset_append_left _ _), fun i hi => h.slots i (hitems ▸ hi), ?_⟩
  unfold tripFixes
  rw [hitems, accepts_append]
  exact h.kept.trans (List.sublist_append_left _ _)

theorem Gapless.mono (h : Gapless L t) (hes : tripItems es t.tripId = []) :
    Gapless (L ++ es) t := by
  unfold Gapless tripSeqs
  rw [tripItems_append, hes, List.append_nil]
  exact h

/-- A trip may drop pending fixes, and skip numbers. -/
theorem OpenTrip.drop (h : OpenTrip L t) (hid : t'.tripId = t.tripId)
    (hseq : t.nextSeq ≤ t'.nextSeq) (hp : t'.pending.Sublist t.pending) : OpenTrip L t' := by
  refine ⟨hid ▸ h.started, fun i hi => ?_, ?_⟩
  · obtain ⟨n, hn, hslot⟩ := h.slots i (hid ▸ hi)
    exact ⟨n, by omega, hslot⟩
  · rw [hid]
    exact ((List.Sublist.refl _).append hp).trans h.kept

variable {s : Sealing K} {now : ℕ → ℤ}

theorem Numbered.tripIds (hs : Numbered now t s) : ∀ i ∈ s.into, i.key.tripId = t.tripId := by
  intro i hi
  have hkey := hs.keys ▸ List.mem_map_of_mem (f := OutboxItem.key) hi
  obtain ⟨k, -, hk⟩ := List.mem_map.mp hkey
  rw [← hk]

theorem Numbered.slots (hs : Numbered now t s) :
    s.into.map (fun i => i.key.slot) =
      (List.range s.into.length).map fun k => Slot.chunk (t.nextSeq + k) := by
  have h := congrArg (List.map Key.slot) hs.keys
  rwa [List.map_map, List.map_map] at h

theorem Numbered.seqs (hs : Numbered now t s) :
    seqsOf s.into = (List.range s.into.length).map fun k => t.nextSeq + k := by
  have h : seqsOf s.into = (s.into.map fun i => i.key.slot).filterMap fun slot =>
      match slot with
      | .chunk seq => some seq
      | .tripEnd => none := by
    rw [List.filterMap_map]
    rfl
  rw [h, hs.slots, List.filterMap_map]
  exact congrFun List.filterMap_eq_map _

theorem Numbered.slot_of_mem (hs : Numbered now t s) {i : OutboxItem K} (hi : i ∈ s.into) :
    ∃ n, t.nextSeq ≤ n ∧ n < s.trip.nextSeq ∧ i.key.slot = .chunk n := by
  have hslot := hs.slots ▸ List.mem_map_of_mem (f := fun i : OutboxItem K => i.key.slot) hi
  obtain ⟨k, hk, hk'⟩ := List.mem_map.mp hslot
  rw [List.mem_range] at hk
  exact ⟨t.nextSeq + k, by omega, by rw [hs.nextSeq]; omega, hk'.symm⟩

/-- **The write of a sealing.** What was pending is queued, or still pending. -/
theorem OpenTrip.queue (h : OpenTrip L t) (hs : Numbered now t s)
    (hes : tripItems es t.tripId = s.into)
    (hp : (fixesOf s.into ++ s.trip.pending).Sublist t.pending) : OpenTrip (L ++ es) s.trip := by
  refine ⟨hs.tripId ▸ h.started.mono (List.subset_append_left _ _), fun i hi => ?_, ?_⟩
  · rw [hs.tripId, tripItems_append, hes] at hi
    rcases List.mem_append.mp hi with hi | hi
    · obtain ⟨n, hn, hslot⟩ := h.slots i hi
      exact ⟨n, by rw [hs.nextSeq]; omega, hslot⟩
    · obtain ⟨n, -, hn, hslot⟩ := hs.slot_of_mem hi
      exact ⟨n, hn, hslot⟩
  · unfold tripFixes
    rw [hs.tripId, tripItems_append, hes, fixesOf_append, List.append_assoc, accepts_append]
    exact (((List.Sublist.refl _).append hp).trans h.kept).trans (List.sublist_append_left _ _)

theorem Gapless.queue (h : Gapless L t) (hs : Numbered now t s)
    (hes : seqsOf (tripItems es t.tripId) = seqsOf s.into) : Gapless (L ++ es) s.trip := by
  unfold Gapless
  rw [hs.tripId, tripSeqs_append, h, tripSeqs, hes, hs.seqs, hs.nextSeq, List.range_add]

end Trips

/-! ## The log -/

/-- What a log owes to itself. -/
structure LedgerOk (L : List (Effect K)) : Prop where
  queued : ∀ i ∈ queuedItems L, Started L i.key.tripId
  accepted : ∀ tripId, ∀ f ∈ accepts L tripId, Started L tripId
  slots : ∀ tripId, (tripItems L tripId).Pairwise fun i j => i.key.slot.rank < j.key.slot.rank
  spaced : ∀ tripId, (accepts L tripId).Pairwise fun f g => f.t + minFixIntervalMs ≤ g.t
  kept : ∀ tripId, (tripFixes L tripId).Sublist (accepts L tripId)
  size : ∀ i ∈ queuedItems L, i.fixes.length ≤ maxFixesPerChunk
  gapless : Effect.rejected ∉ L → ∀ tripId, ∃ n, tripSeqs L tripId = List.range n
  sent : ∀ i token, Effect.send i token ∈ L → i ∈ queuedItems L

section Log

variable {L es : List (Effect K)} {t : TripRecord K} {s : Sealing K} {now : ℕ → ℤ}

theorem tripItems_eq_nil (h : queuedItems es = []) (tripId : String) :
    tripItems es tripId = [] := by
  unfold tripItems
  rw [h, List.filter_nil]

theorem ledgerOk_nil : LedgerOk ([] : List (Effect K)) where
  queued := fun _ hi => absurd hi List.not_mem_nil
  accepted := fun _ _ hf => absurd hf List.not_mem_nil
  slots := fun _ => List.Pairwise.nil
  spaced := fun _ => List.Pairwise.nil
  kept := fun _ => List.Sublist.refl _
  size := fun _ hi => absurd hi List.not_mem_nil
  gapless := fun _ _ => ⟨0, rfl⟩
  sent := fun _ _ h => absurd h List.not_mem_nil

/-- Nothing is queued. -/
theorem LedgerOk.unqueued (h : LedgerOk L) (hq : queuedItems es = [])
    (ha : ∀ tripId, ∀ f ∈ accepts es tripId, Started L tripId)
    (hsp : ∀ tripId, (accepts (L ++ es) tripId).Pairwise fun f g => f.t + minFixIntervalMs ≤ g.t)
    (hs : ∀ i token, Effect.send i token ∈ es → i ∈ queuedItems L) : LedgerOk (L ++ es) := by
  have hL : L ⊆ L ++ es := List.subset_append_left _ _
  have hqueued : queuedItems (L ++ es) = queuedItems L := by
    rw [queuedItems_append, hq, List.append_nil]
  have hitems : ∀ tripId, tripItems (L ++ es) tripId = tripItems L tripId := by
    intro tripId
    unfold tripItems
    rw [hqueued]
  constructor
  · exact fun i hi => (h.queued i (hqueued ▸ hi)).mono hL
  · intro tripId f hf
    rw [accepts_append] at hf
    rcases List.mem_append.mp hf with hf | hf
    · exact (h.accepted tripId f hf).mono hL
    · exact (ha tripId f hf).mono hL
  · exact fun tripId => (hitems tripId).symm ▸ h.slots tripId
  · exact hsp
  · intro tripId
    unfold tripFixes
    rw [hitems, accepts_append]
    exact (h.kept tripId).trans (List.sublist_append_left _ _)
  · exact fun i hi => h.size i (hqueued ▸ hi)
  · intro hrej tripId
    unfold tripSeqs
    rw [hitems]
    exact h.gapless (fun hmem => hrej (hL hmem)) tripId
  · intro i token hmem
    rw [hqueued]
    rcases List.mem_append.mp hmem with hmem | hmem
    · exact h.sent i token hmem
    · exact hs i token hmem

/-- Nothing is queued, and nothing accepted. -/
theorem LedgerOk.quiet (h : LedgerOk L) (hq : queuedItems es = [])
    (ha : ∀ tripId, accepts es tripId = [])
    (hs : ∀ i token, Effect.send i token ∈ es → i ∈ queuedItems L) : LedgerOk (L ++ es) := by
  refine h.unqueued hq (fun tripId f hf => ?_) (fun tripId => ?_) hs
  · exact absurd (ha tripId ▸ hf) List.not_mem_nil
  · rw [accepts_append, ha, List.append_nil]
    exact h.spaced tripId

/-- The fixes accepted so far are not later than the last of them. -/
theorem le_getLast_of_spaced {l : List (TraceFix K)}
    (h : l.Pairwise fun f g => f.t + minFixIntervalMs ≤ g.t) {last : TraceFix K}
    (hlast : l.getLast? = some last) : ∀ f ∈ l, f.t ≤ last.t := by
  obtain ⟨init, rfl⟩ := List.getLast?_eq_some_iff.mp hlast
  intro f hf
  rcases List.mem_append.mp hf with hf | hf
  · have hle := (List.pairwise_append.mp h).2.2 f hf last (List.mem_singleton_self _)
    unfold minFixIntervalMs at hle
    omega
  · rw [List.mem_singleton.mp hf]

theorem accepts_accept_self (tripId : String) (fix : TraceFix K) :
    accepts [.accept tripId fix] tripId = [fix] := by
  simp [accepts, Effect.accepted]

theorem accepts_accept_ne {tripId other : String} (hne : tripId ≠ other) (fix : TraceFix K) :
    accepts [.accept tripId fix] other = [] := by
  simp [accepts, Effect.accepted, hne]

/-- A fix that follows the last one is accepted. -/
theorem LedgerOk.accept (h : LedgerOk L) {distanceM : LatLon K → LatLon K → K}
    {fix : TraceFix K} (ht : OpenTrip L t) (hhead : t.head = (accepts L t.tripId).getLast?)
    (hf : followsHead distanceM t.head fix = true) :
    LedgerOk (L ++ [.accept t.tripId fix]) := by
  refine h.unqueued rfl (fun tripId f hf => ?_) (fun tripId => ?_) fun i token hmem => ?_
  · rw [mem_accepts] at hf
    obtain ⟨rfl, -⟩ := Effect.accept.inj (List.mem_singleton.mp hf)
    exact ht.started
  · rw [accepts_append]
    by_cases hid : t.tripId = tripId
    · subst hid
      rw [accepts_accept_self, List.pairwise_append]
      refine ⟨h.spaced _, List.pairwise_singleton _ _, fun f hmem g hg => ?_⟩
      rw [List.mem_singleton.mp hg]
      -- the trip's head is the last fix accepted
      rw [hhead] at hf
      cases hlast : (accepts L t.tripId).getLast? with
      | none =>
        rw [List.getLast?_eq_none_iff] at hlast
        exact absurd (hlast ▸ hmem) List.not_mem_nil
      | some last =>
        have hle := le_getLast_of_spaced (h.spaced _) hlast f hmem
        rw [hlast] at hf
        have hspaced := spaced_of_followsHead distanceM hf
        omega
    · rw [accepts_accept_ne hid, List.append_nil]
      exact h.spaced tripId
  · exact absurd (List.mem_singleton.mp hmem) (by simp)

theorem Numbered.pairwise (hs : Numbered now t s) :
    s.into.Pairwise fun i j => i.key.slot.rank < j.key.slot.rank := by
  have hmap : (s.into.map fun i => i.key.slot).Pairwise fun a b => a.rank < b.rank := by
    rw [hs.slots, List.pairwise_map]
    refine List.pairwise_lt_range.imp fun hab => ?_
    simp only [Slot.rank]
    exact_mod_cast Nat.add_lt_add_left hab t.nextSeq
  rwa [List.pairwise_map] at hmap

/-- The items that end a trip: none yet, or its end. -/
def EndsTrip (tripId : String) (tail : List (OutboxItem K)) : Prop :=
  tail = [] ∨ ∃ i, tail = [i] ∧ i.key = ⟨tripId, .tripEnd⟩ ∧ i.fixes = []

theorem EndsTrip.mem {tripId : String} {tail : List (OutboxItem K)} (h : EndsTrip tripId tail) :
    ∀ i ∈ tail, i.key = ⟨tripId, .tripEnd⟩ ∧ i.fixes = [] := by
  rcases h with rfl | ⟨i, rfl, hkey, hfixes⟩
  · exact fun _ hi => absurd hi List.not_mem_nil
  · intro j hj
    rw [List.mem_singleton.mp hj]
    exact ⟨hkey, hfixes⟩

theorem EndsTrip.seqs {tripId : String} {tail : List (OutboxItem K)} (h : EndsTrip tripId tail) :
    seqsOf tail = [] :=
  List.filterMap_eq_nil_iff.mpr fun i hi => by rw [(h.mem i hi).1]

theorem EndsTrip.fixes {tripId : String} {tail : List (OutboxItem K)} (h : EndsTrip tripId tail) :
    fixesOf tail = [] :=
  List.flatMap_eq_nil_iff.mpr fun i hi => (h.mem i hi).2

theorem Numbered.tripIds_append (hs : Numbered now t s) {tail : List (OutboxItem K)}
    (htail : EndsTrip t.tripId tail) : ∀ i ∈ s.into ++ tail, i.key.tripId = t.tripId := by
  intro i hi
  rcases List.mem_append.mp hi with hi | hi
  · exact hs.tripIds i hi
  · rw [(htail.mem i hi).1]

/-- The end comes last. -/
theorem Numbered.pairwise_append (hs : Numbered now t s) {tail : List (OutboxItem K)}
    (htail : EndsTrip t.tripId tail) :
    (s.into ++ tail).Pairwise fun i j => i.key.slot.rank < j.key.slot.rank := by
  refine List.pairwise_append.mpr ⟨hs.pairwise, ?_, fun i hi j hj => ?_⟩
  · rcases htail with rfl | ⟨i, rfl, -⟩
    · exact List.Pairwise.nil
    · exact List.pairwise_singleton _ _
  · obtain ⟨n, -, -, hslot⟩ := hs.slot_of_mem hi
    rw [hslot, (htail.mem j hj).1]
    exact WithTop.coe_lt_top n

/-- What an open trip has queued comes before what is sealed from it. -/
theorem OpenTrip.rank_lt (ht : OpenTrip L t) (hs : Numbered now t s) {tail : List (OutboxItem K)}
    (htail : EndsTrip t.tripId tail) :
    ∀ i ∈ tripItems L t.tripId, ∀ j ∈ s.into ++ tail, i.key.slot.rank < j.key.slot.rank := by
  intro i hi j hj
  obtain ⟨m, hm, hslot⟩ := ht.slots i hi
  rw [hslot]
  rcases List.mem_append.mp hj with hj | hj
  · obtain ⟨n, hn, -, hslot'⟩ := hs.slot_of_mem hj
    rw [hslot']
    exact WithTop.coe_lt_coe.mpr (hm.trans_le hn)
  · rw [(htail.mem j hj).1]
    exact WithTop.coe_lt_top m

/-- **The write of a sealing**, perhaps with the end of the trip. -/
theorem LedgerOk.queue (h : LedgerOk L) (ht : OpenTrip L t)
    (hgap : Effect.rejected ∉ L → Gapless L t) (hs : Numbered now t s)
    (hp : (fixesOf s.into ++ s.trip.pending).Sublist t.pending) {tail : List (OutboxItem K)}
    (htail : EndsTrip t.tripId tail) (hq : queuedItems es = s.into ++ tail)
    (ha : ∀ tripId, accepts es tripId = []) (hsend : ∀ i token, Effect.send i token ∉ es) :
    LedgerOk (L ++ es) := by
  have hL : L ⊆ L ++ es := List.subset_append_left _ _
  have hids := hs.tripIds_append htail
  have hsame : tripItems es t.tripId = s.into ++ tail := by
    unfold tripItems
    rw [hq, filter_of_tripId hids]
  have hother : ∀ tripId, tripId ≠ t.tripId → tripItems es tripId = [] := by
    intro tripId hne
    unfold tripItems
    rw [hq, filter_of_tripId_ne hids hne]
  have hmem : ∀ i, i ∈ queuedItems (L ++ es) → i ∈ queuedItems L ∨ i ∈ s.into ++ tail := by
    intro i hi
    rw [queuedItems_append, hq] at hi
    exact List.mem_append.mp hi
  constructor
  · intro i hi
    rcases hmem i hi with hi | hi
    · exact (h.queued i hi).mono hL
    · rw [hids i hi]
      exact ht.started.mono hL
  · intro tripId f hf
    rw [accepts_append, ha, List.append_nil] at hf
    exact (h.accepted tripId f hf).mono hL
  · intro tripId
    rw [tripItems_append]
    by_cases hid : tripId = t.tripId
    · subst hid
      rw [hsame]
      exact List.pairwise_append.mpr
        ⟨h.slots _, hs.pairwise_append htail, ht.rank_lt hs htail⟩
    · rw [hother tripId hid, List.append_nil]
      exact h.slots tripId
  · intro tripId
    rw [accepts_append, ha, List.append_nil]
    exact h.spaced tripId
  · intro tripId
    rw [tripFixes_append, accepts_append, ha, List.append_nil]
    unfold tripFixes
    by_cases hid : tripId = t.tripId
    · subst hid
      rw [hsame, fixesOf_append, htail.fixes, List.append_nil]
      exact ((List.Sublist.refl _).append ((List.sublist_append_left _ _).trans hp)).trans ht.kept
    · rw [hother tripId hid]
      exact (List.append_nil (fixesOf (tripItems L tripId))).symm ▸ h.kept tripId
  · intro i hi
    rcases hmem i hi with hi | hi
    · exact h.size i hi
    · rcases List.mem_append.mp hi with hi | hi
      · exact hs.size i hi
      · rw [(htail.mem i hi).2]
        exact Nat.zero_le _
  · intro hrej tripId
    have hrej' : Effect.rejected ∉ L := fun hmem => hrej (hL hmem)
    by_cases hid : tripId = t.tripId
    · subst hid
      refine ⟨s.trip.nextSeq, hs.tripId ▸ (hgap hrej').queue hs ?_⟩
      rw [hsame, seqsOf_append, htail.seqs, List.append_nil]
    · rw [tripSeqs_append]
      unfold tripSeqs
      rw [hother tripId hid]
      exact (List.append_nil (seqsOf (tripItems L tripId))).symm ▸ h.gapless hrej' tripId
  · intro i token hi
    rcases List.mem_append.mp hi with hi | hi
    · exact subset_queuedItems_append (h.sent i token hi)
    · exact absurd hi (hsend i token)

end Log

end RoutePlanner.Recorder
