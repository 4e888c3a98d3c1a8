import RoutePlanner.Lib.StableSort
import RoutePlanner.Recorder.Ledger

/-!
# The sorted outbox

`outboxOrder` is a total preorder, and the outbox in memory is always sorted by it.

It is sorted by `List.mergeSort`, which does not evaluate on a list of several items. `stepEval` is
`step` with an insertion sort where an operation queues what it has written.

* `outboxOrder_trans`, `outboxOrder_total`, `createdAt_lt_of_outboxOrder`.
* `run_eq_eval`: both sort alike.
-/

namespace RoutePlanner.Recorder

open RoutePlanner.Lib

variable {K : Type} [Field K] [LinearOrder K]

/-! ## The order of an outbox -/

theorem Key.le_iff {a b : Key} :
    a.le b = true ↔ a.tripId < b.tripId ∨ a.tripId = b.tripId ∧ a.slot.rank ≤ b.slot.rank := by
  unfold Key.le
  rw [Bool.or_eq_true, Bool.and_eq_true, decide_eq_true_eq, decide_eq_true_eq, Slot.le_iff_rank]

theorem Key.le_trans {a b c : Key} (hab : a.le b = true) (hbc : b.le c = true) :
    a.le c = true := by
  rw [Key.le_iff] at hab hbc ⊢
  rcases hab with hab | ⟨hid, hab⟩
  · rcases hbc with hbc | ⟨hid, -⟩
    · exact Or.inl (String.lt_trans hab hbc)
    · exact Or.inl (hid ▸ hab)
  · rcases hbc with hbc | ⟨hid', hbc⟩
    · exact Or.inl (hid ▸ hbc)
    · exact Or.inr ⟨hid.trans hid', hab.trans hbc⟩

theorem Key.le_total (a b : Key) : a.le b = true ∨ b.le a = true := by
  rw [Key.le_iff, Key.le_iff]
  rcases Std.lt_trichotomy a.tripId b.tripId with h | h | h
  · exact Or.inl (Or.inl h)
  · rcases LinearOrder.le_total a.slot.rank b.slot.rank with hle | hle
    · exact Or.inl (Or.inr ⟨h, hle⟩)
    · exact Or.inr (Or.inr ⟨h.symm, hle⟩)
  · exact Or.inr (Or.inl h)

theorem outboxOrder_iff {a b : OutboxItem K} : outboxOrder a b = true ↔
    a.createdAt < b.createdAt ∨ a.createdAt = b.createdAt ∧ a.key.le b.key = true := by
  unfold outboxOrder
  rw [Bool.or_eq_true, Bool.and_eq_true, decide_eq_true_eq, decide_eq_true_eq]

theorem outboxOrder_trans (a b c : OutboxItem K) (hab : outboxOrder a b = true)
    (hbc : outboxOrder b c = true) : outboxOrder a c = true := by
  rw [outboxOrder_iff] at hab hbc ⊢
  by_cases hlt : a.createdAt < c.createdAt
  · exact Or.inl hlt
  · exact Or.inr ⟨by omega, Key.le_trans (hab.resolve_left (by omega)).2
      (hbc.resolve_left (by omega)).2⟩

theorem outboxOrder_total (a b : OutboxItem K) : (outboxOrder a b || outboxOrder b a) = true := by
  rw [Bool.or_eq_true, outboxOrder_iff, outboxOrder_iff]
  rcases lt_trichotomy a.createdAt b.createdAt with h | h | h
  · exact Or.inl (Or.inl h)
  · exact (Key.le_total a.key b.key).imp (fun hle => Or.inr ⟨h, hle⟩)
      fun hle => Or.inr ⟨h.symm, hle⟩
  · exact Or.inr (Or.inl h)

/-- An outbox in the order to send it. -/
def Sorted (outbox : List (OutboxItem K)) : Prop :=
  outbox.Pairwise fun a b => outboxOrder a b = true

theorem sorted_mergeSort (outbox : List (OutboxItem K)) : Sorted (outbox.mergeSort outboxOrder) :=
  List.pairwise_mergeSort outboxOrder_trans outboxOrder_total outbox

theorem Mem.sorted_enqueue (mem : Mem K) (items : List (OutboxItem K)) (h : Sorted mem.outbox) :
    Sorted (mem.enqueue items).outbox := by
  unfold Mem.enqueue
  split
  · exact h
  · exact sorted_mergeSort _

/-- Of two items of one trip, the later one does not stand first unless its stamp is earlier. -/
theorem createdAt_lt_of_outboxOrder {i j : OutboxItem K} (hid : i.key.tripId = j.key.tripId)
    (hlt : j.key.slot.rank < i.key.slot.rank) (h : outboxOrder i j = true) :
    i.createdAt < j.createdAt := by
  rcases outboxOrder_iff.mp h with h | ⟨-, h⟩
  · exact h
  · rcases Key.le_iff.mp h with h | ⟨-, h⟩
    · exact absurd (hid ▸ h) (String.lt_irrefl _)
    · exact absurd hlt h.not_gt

/-! ## Runs that evaluate -/

/-- `enqueue`, by insertion. -/
def Mem.insert (mem : Mem K) (items : List (OutboxItem K)) : Mem K :=
  if items = [] then mem
  else { mem with
    outbox := (mem.outbox ++ items).insertionSort fun a b => outboxOrder a b = true }

theorem Mem.enqueue_eq_insert (mem : Mem K) (items : List (OutboxItem K)) :
    mem.enqueue items = mem.insert items := by
  unfold Mem.enqueue Mem.insert
  rw [mergeSort_eq_insertionSort outboxOrder_trans outboxOrder_total]

section Step

variable (opts : RecorderOptions K) [FloorRing K]

/-- `opStep`, where it queues what it has written. -/
def opStepEval (env : Env K) (disk : StoredState K) (mem : Mem K) : Out K :=
  match mem.cont with
  | .finalizing tripId items .flush true =>
    flush opts { Mem.insert { mem with
      trip := mem.trip.filter fun t => decide (t.tripId ≠ tripId) } items with cont := .idle }
  | .finalizing tripId items (.startTrip route destination) true =>
    startTripOpen opts env (Mem.insert { mem with
      trip := mem.trip.filter fun t => decide (t.tripId ≠ tripId) } items) route destination
  | .queued items true =>
    if items = [] then mem.done else flush opts { mem.insert items with cont := .idle }
  | _ => opStep opts env disk mem

theorem opStep_eq_eval (env : Env K) (disk : StoredState K) (mem : Mem K) :
    opStep opts env disk mem = opStepEval opts env disk mem := by
  unfold opStepEval
  split
  · rename_i hc
    unfold opStep
    simp only [hc, resume, finalized, Mem.enqueue_eq_insert]
  · rename_i hc
    unfold opStep
    simp only [hc, resume, finalized, Mem.enqueue_eq_insert]
  · rename_i hc
    unfold opStep
    simp only [hc, resume, Mem.enqueue_eq_insert]
  · rfl

/-- `step`, by insertion. -/
def stepEval (w : World K) (e : Event K) : World K :=
  match w.mem, e with
  | some mem, .opStep env => w.emit (opStepEval opts env w.disk mem)
  | _, _ => step opts w e

theorem step_eq_eval : step opts = stepEval opts := by
  funext w e
  unfold stepEval
  split
  · rename_i mem env hmem
    unfold step
    simp only [hmem, opStep_eq_eval]
  · rfl

/-- **A run, evaluated.** -/
theorem run_eq_eval (events : List (Event K)) :
    run opts events = events.foldl (stepEval opts) .init := by
  unfold run
  rw [step_eq_eval]

end Step

end RoutePlanner.Recorder
