import Mathlib.Data.List.Nodup
import RoutePlanner.Lib.Run

/-!
# `web/lib/useWakeLock.ts`: the wake-lock controller

`createWakeLockController` asks the browser for a lock while one is wanted. A request is named by
its token, and so is the sentinel it is granted. Requests settle in any order and at any time. The
browser may release a lock whenever it likes; the controller sees it when the sentinel's `release`
event fires, as after a `release()` of its own.

* `wake_lock_sound`: in every run, a sentinel that is granted and not the current one has been
  released, all of them have once the lock is not wanted, and a controller that says it holds the
  lock has a current sentinel.

`Inv` says why: a request that could still be granted finds no sentinel, or one already released.
-/

namespace RoutePlanner.Web.WakeLock

open RoutePlanner.Lib

/-! ## The controller -/

/-- The controller: its variables, whether its `visibilitychange` listener is attached, the
requests that have not settled, and what has happened to the sentinels: granted by the browser,
`release()` called on them, their `release` event fired. `calls` are those of `onChange`. -/
structure Controller where
  supported : Bool
  wanted : Bool
  sentinel : Option ℕ
  requestToken : ℕ
  listening : Bool
  inFlight : List ℕ
  granted : List ℕ
  released : List ℕ
  fired : List ℕ
  calls : List Bool
  deriving DecidableEq

/-- What can happen. -/
inductive Event where
  | setWanted (next : Bool)
  | visibilityChange (visible : Bool)
  | granted (token : ℕ)
  | rejected (token : ℕ)
  | releaseEvent (token : ℕ)
  | destroy
  deriving DecidableEq

namespace Controller

/-- `createWakeLockController`. -/
def create (supported : Bool) : Controller where
  supported := supported
  wanted := false
  sentinel := none
  requestToken := 0
  listening := true
  inFlight := []
  granted := []
  released := []
  fired := []
  calls := []

/-- `acquire`. -/
def acquire (c : Controller) : Controller :=
  if c.supported then
    { c with
      requestToken := c.requestToken + 1
      inFlight := c.inFlight ++ [c.requestToken + 1] }
  else c

/-- `release`. -/
def release (c : Controller) : Controller :=
  { c with released := c.sentinel.toList ++ c.released }

/-- `onVisibilityChange`. -/
def onVisibilityChange (c : Controller) (visible : Bool) : Controller :=
  if visible && c.wanted && c.sentinel.isNone then c.acquire else c

/-- `setWanted`. -/
def setWanted (c : Controller) (next : Bool) : Controller :=
  if c.wanted = next then c
  else if next then { c with wanted := next }.acquire
  else { c with wanted := next }.release

/-- `destroy`. -/
def destroy (c : Controller) : Controller :=
  { c with listening := false, wanted := false }.release

/-- The request's promise is fulfilled. -/
def onGranted (c : Controller) (token : ℕ) : Controller :=
  let c := { c with inFlight := c.inFlight.erase token, granted := token :: c.granted }
  if token ≠ c.requestToken ∨ c.wanted = false then { c with released := token :: c.released }
  else { c with sentinel := some token, calls := c.calls ++ [true] }

/-- The request's promise is rejected. -/
def onRejected (c : Controller) (token : ℕ) : Controller :=
  let c := { c with inFlight := c.inFlight.erase token }
  if token = c.requestToken then { c with calls := c.calls ++ [false] } else c

/-- The sentinel's `release` event fires. -/
def onRelease (c : Controller) (token : ℕ) : Controller :=
  let c := { c with fired := token :: c.fired }
  if c.sentinel = some token then { c with sentinel := none, calls := c.calls ++ [false] } else c

/-- One event. A request settles once. -/
def step (c : Controller) : Event → Controller
  | .setWanted next => c.setWanted next
  | .visibilityChange visible => if c.listening then c.onVisibilityChange visible else c
  | .granted token => if token ∈ c.inFlight then c.onGranted token else c
  | .rejected token => if token ∈ c.inFlight then c.onRejected token else c
  | .releaseEvent token => c.onRelease token
  | .destroy => c.destroy

/-- The controller after the events. -/
def run (supported : Bool) (events : List Event) : Controller :=
  events.foldl step (create supported)

/-- The sentinel has been let go. -/
def LetGo (c : Controller) (token : ℕ) : Prop := token ∈ c.released ∨ token ∈ c.fired

/-! ## The invariant -/

/-- What holds between two events. -/
structure Inv (c : Controller) : Prop where
  nodup : c.inFlight.Nodup
  others : ∀ s ∈ c.granted, c.sentinel ≠ some s → c.LetGo s
  /-- Nothing is held that is not wanted. -/
  unwanted : c.wanted = false → ∀ s, c.sentinel = some s → s ∈ c.released
  /-- A request that can still be granted replaces no held sentinel. -/
  pending : c.requestToken ∈ c.inFlight → ∀ s, c.sentinel = some s → s ∈ c.released
  told : c.calls.getLast? = some true → c.sentinel ≠ none
  known : ∀ t ∈ c.inFlight, t ≤ c.requestToken

theorem inv_create (supported : Bool) : (create supported).Inv where
  nodup := List.nodup_nil
  others s hs := by cases hs
  unwanted _ s hs := by cases hs
  pending h := by cases h
  told h := by cases h
  known t ht := by cases ht

variable {c : Controller}

/-- A new request is made when no sentinel is held. -/
theorem Inv.acquire (h : c.Inv) (hheld : ∀ s, c.sentinel = some s → s ∈ c.released) :
    c.acquire.Inv := by
  unfold Controller.acquire
  split
  · refine ⟨?_, h.others, h.unwanted, fun _ => hheld, h.told, fun t ht => ?_⟩
    · refine List.nodup_append.mpr ⟨h.nodup, List.nodup_singleton _, fun t ht t' ht' heq => ?_⟩
      have hle := h.known t ht
      rw [List.mem_singleton] at ht'
      omega
    · rcases List.mem_append.mp ht with ht | ht
      · exact Nat.le_succ_of_le (h.known t ht)
      · exact Nat.le_of_eq (List.mem_singleton.mp ht)
  · exact h

/-- Once `release` is called, what was held need not be wanted. -/
theorem Inv.release (h : c.Inv) : { c with wanted := false }.release.Inv := by
  have hheld : ∀ s, c.sentinel = some s → s ∈ c.sentinel.toList ++ c.released := fun s hs =>
    List.mem_append_left _ (Option.mem_toList.mpr hs)
  refine ⟨h.nodup, fun s hs hne => ?_, fun _ => hheld, fun _ => hheld, h.told, h.known⟩
  exact (h.others s hs hne).imp (List.mem_append_right _) id

theorem Inv.setWanted (h : c.Inv) (next : Bool) : (c.setWanted next).Inv := by
  unfold Controller.setWanted
  split
  · exact h
  · next hne =>
    cases next with
    | true =>
      have hunwanted := h.unwanted (by simpa using hne)
      exact Inv.acquire ⟨h.nodup, h.others, fun hw => (by cases hw), h.pending, h.told, h.known⟩
        hunwanted
    | false => exact h.release

theorem Inv.onVisibilityChange (h : c.Inv) (visible : Bool) :
    (c.onVisibilityChange visible).Inv := by
  unfold Controller.onVisibilityChange
  split
  · next hcond =>
    refine h.acquire fun s hs => ?_
    simp [hs] at hcond
  · exact h

theorem Inv.onGranted (h : c.Inv) {token : ℕ} (hmem : token ∈ c.inFlight) :
    (c.onGranted token).Inv := by
  have hknown : ∀ t ∈ c.inFlight.erase token, t ≤ c.requestToken :=
    fun t ht => h.known t (List.mem_of_mem_erase ht)
  simp only [Controller.onGranted]
  split
  · -- The lock is released as soon as it is granted.
    refine ⟨h.nodup.erase token, fun s hs hne => ?_, fun hw s hs => ?_, fun hp s hs => ?_, h.told,
      hknown⟩
    · rcases List.mem_cons.mp hs with rfl | hs
      · exact Or.inl List.mem_cons_self
      · exact (h.others s hs hne).imp (List.mem_cons_of_mem token) id
    · exact List.mem_cons_of_mem token (h.unwanted hw s hs)
    · exact List.mem_cons_of_mem token (h.pending (List.mem_of_mem_erase hp) s hs)
  · next hcurrent =>
    obtain ⟨htoken, hwanted⟩ : token = c.requestToken ∧ c.wanted = true := by
      simpa using hcurrent
    subst htoken
    refine ⟨h.nodup.erase _, fun s hs hne => ?_, fun hw => ?_, fun hp => ?_, fun _ => ?_, hknown⟩
    · rcases List.mem_cons.mp hs with rfl | hs
      · exact absurd rfl hne
      · by_cases hold : c.sentinel = some s
        · exact Or.inl (h.pending hmem s hold)
        · exact h.others s hs hold
    · rw [hwanted] at hw
      cases hw
    · exact absurd hp (h.nodup.not_mem_erase)
    · exact Option.some_ne_none _

theorem Inv.onRejected (h : c.Inv) (token : ℕ) : (c.onRejected token).Inv := by
  have hknown : ∀ t ∈ c.inFlight.erase token, t ≤ c.requestToken :=
    fun t ht => h.known t (List.mem_of_mem_erase ht)
  have hpending : c.requestToken ∈ c.inFlight.erase token →
      ∀ s, c.sentinel = some s → s ∈ c.released := fun hp => h.pending (List.mem_of_mem_erase hp)
  simp only [Controller.onRejected]
  split
  · refine ⟨h.nodup.erase token, h.others, h.unwanted, hpending, fun htrue => ?_, hknown⟩
    simp at htrue
  · exact ⟨h.nodup.erase token, h.others, h.unwanted, hpending, h.told, hknown⟩

theorem Inv.onRelease (h : c.Inv) (token : ℕ) : (c.onRelease token).Inv := by
  simp only [Controller.onRelease]
  split
  · next hcurrent =>
    refine ⟨h.nodup, fun s hs _ => ?_, fun _ s hs => (by cases hs), fun _ s hs => (by cases hs),
      fun htrue => ?_, h.known⟩
    · by_cases hst : s = token
      · exact Or.inr (hst ▸ List.mem_cons_self)
      · refine (h.others s hs fun hold => hst ?_).imp id (List.mem_cons_of_mem token)
        exact Option.some.inj (hold.symm.trans hcurrent)
    · simp at htrue
  · exact ⟨h.nodup, fun s hs hne => (h.others s hs hne).imp id (List.mem_cons_of_mem token),
      h.unwanted, h.pending, h.told, h.known⟩

theorem Inv.step (h : c.Inv) (e : Event) : (c.step e).Inv := by
  cases e with
  | setWanted next => exact h.setWanted next
  | visibilityChange visible =>
    simp only [Controller.step]
    split
    · exact h.onVisibilityChange visible
    · exact h
  | granted token =>
    simp only [Controller.step]
    split
    · next hmem => exact h.onGranted hmem
    · exact h
  | rejected token =>
    simp only [Controller.step]
    split
    · exact h.onRejected token
    · exact h
  | releaseEvent token => exact h.onRelease token
  | destroy =>
    have hquiet : { c with listening := false }.Inv :=
      ⟨h.nodup, h.others, h.unwanted, h.pending, h.told, h.known⟩
    exact hquiet.release

theorem inv_run (supported : Bool) (events : List Event) : (run supported events).Inv :=
  foldl_invariant (fun _ e _ h => h.step e) (inv_create supported)

/-- Only `setWanted` makes the lock wanted. -/
theorem wanted_step {e : Event} (hw : c.wanted = false) (he : ∀ next, e ≠ .setWanted next) :
    (c.step e).wanted = false := by
  cases e with
  | setWanted next => exact absurd rfl (he next)
  | visibilityChange visible =>
    simp only [Controller.step, Controller.onVisibilityChange, hw]
    simpa using hw
  | granted token =>
    simp only [Controller.step, Controller.onGranted]
    repeat' split
    all_goals exact hw
  | rejected token =>
    simp only [Controller.step, Controller.onRejected]
    repeat' split
    all_goals exact hw
  | releaseEvent token =>
    simp only [Controller.step, Controller.onRelease]
    split <;> exact hw
  | destroy => rfl

/-- A destroyed controller wants no lock. -/
theorem wanted_of_destroyed (supported : Bool) {events : List Event} (hmem : .destroy ∈ events)
    (hfinal : ∀ next, .setWanted next ∉ events.dropWhile fun e => e ≠ .destroy) :
    (run supported events).wanted = false := by
  obtain ⟨after, hafter⟩ : ∃ after,
      (events.dropWhile fun e => e ≠ .destroy) = .destroy :: after := by
    induction events with
    | nil => cases hmem
    | cons e events ih =>
      by_cases he : e = .destroy
      · exact ⟨events, by rw [he]; rfl⟩
      · rw [List.dropWhile_cons_of_pos (by simpa using he)] at hfinal ⊢
        exact ih ((List.mem_cons.mp hmem).resolve_left (Ne.symm he)) hfinal
  rw [hafter] at hfinal
  have hsplit : events = (events.takeWhile fun e => e ≠ .destroy) ++ .destroy :: after := by
    rw [← hafter]
    exact List.takeWhile_append_dropWhile.symm
  rw [run, hsplit, List.foldl_append, List.foldl_cons]
  refine foldl_invariant (I := fun c : Controller => c.wanted = false) (fun c e he hw => ?_) rfl
  exact wanted_step hw fun next heq => hfinal next (heq ▸ List.mem_cons_of_mem _ he)

end Controller

/-- **No lock leaks, and none is claimed that is not there.** In every run with no `setWanted` after
`destroy`: a granted sentinel that is not the current one has had `release()` called or its
`release` event fired; all of them have while the lock is unwanted, and after `destroy`; and if
`onChange` was last told that the lock is held, there is a current sentinel. -/
theorem wake_lock_sound (supported : Bool) (events : List Event)
    (hfinal : ∀ next, .setWanted next ∉ events.dropWhile fun e => e ≠ .destroy) :
    let c := Controller.run supported events
    (∀ s ∈ c.granted, c.sentinel ≠ some s → c.LetGo s) ∧
      (c.wanted = false ∨ .destroy ∈ events → ∀ s ∈ c.granted, c.LetGo s) ∧
      (c.calls.getLast? = some true → ∃ s, c.sentinel = some s) := by
  intro c
  have h : c.Inv := Controller.inv_run supported events
  refine ⟨h.others, fun hdone s hs => ?_, fun htrue => Option.ne_none_iff_exists'.mp (h.told htrue)⟩
  have hunwanted : c.wanted = false := by
    rcases hdone with hw | hmem
    · exact hw
    · exact Controller.wanted_of_destroyed supported hmem hfinal
  by_cases hcurrent : c.sentinel = some s
  · exact Or.inl (h.unwanted hunwanted s hcurrent)
  · exact h.others s hs hcurrent

/-- A toggle that overlaps a request: the lock asked for twice is granted twice, in the other
order, and released twice. -/
def toggled : List Event :=
  [.setWanted true, .setWanted false, .setWanted true, .granted 2, .granted 1, .destroy,
    .releaseEvent 2]

/-- `wake_lock_sound` on `toggled`. -/
theorem wake_lock_sound_toggled :
    (Controller.run true toggled).granted = [1, 2] ∧
      ∀ s ∈ (Controller.run true toggled).granted, (Controller.run true toggled).LetGo s :=
  ⟨by decide, (wake_lock_sound true toggled (by decide)).2.1 (Or.inr (by decide))⟩

end RoutePlanner.Web.WakeLock
