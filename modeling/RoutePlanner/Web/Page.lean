import Mathlib.Data.Rat.Defs
import RoutePlanner.Lib.Run
import RoutePlanner.Recorder.Clip
import RoutePlanner.Web.Coverage

/-!
# `web/app/page.tsx`: the planner

The page asks for routes when its inputs have rested for a while, and shows the answer to the last
request. An event is what makes it render: the user, the GPS, a timer or an answer; the effects that
its render causes belong to it. Answers come in any order. A closure keeps the inputs of its render.

The distance, the text of the link and what the server answers to a request are parameters. Units,
the camera, the sheet and the texts in the search boxes are left out: no request depends on them.

* `Kept`, `kept_gps`: what does not ask for routes leaves what is shown, and arms the timer when it
  changes an input.
* `Inv.run`: the invariant.
* `page_consistent`: what is shown belongs together, after any events.
* `page_settles`: a page that waits for nothing shows the answer for its inputs.
* `planner_frozen`: nothing that comes in while navigating changes what was planned.
-/

namespace RoutePlanner.Web

open RoutePlanner.Api RoutePlanner.Lib
open RoutePlanner.Recorder (RouteKind)

/-! ## The code -/

/-- The dependencies of `runRoute`. -/
structure Inputs (K : Type) where
  origin : Option (Point K)
  destination : Option (Point K)
  departure : String
  safety : Bool
  detourBudget : K
  packs : Option (List (ServedPack K))

/-- The body of a `/route` request. -/
structure RouteAsk (K : Type) where
  origin : Point K
  destination : Point K
  departureTime : String
  safetyEnabled : Bool
  detourBudgetPct : K

/-- What `fetchRoutes` comes back with. -/
inductive RouteOutcome (Route : Type) where
  | routes (routes : List Route)
  | failed (message : String)

/-- What the routing callback writes, with the requests that are in flight. -/
structure Search (K Route : Type) where
  routes : List Route
  googleMapsHref : Option String
  selected : Option RouteKind
  loading : Bool
  error : Option String
  reqSeq : ℕ
  inFlight : List (ℕ × RouteAsk K)

/-- The page. `timer` has the closure that it will call. -/
structure Home (K Route : Type) where
  inputs : Inputs K
  timer : Option (Inputs K)
  search : Search K Route
  metaSettled : Bool
  followMode : Bool
  navigating : Bool
  geoPosition : Option (Point K)
  coverageNote : Option String

/-- One end of a route. -/
inductive RouteEnd where
  | origin
  | destination

/-- What can happen. -/
inductive HomeEvent (K : Type) where
  | metaSettles (packs : Option (List (ServedPack K)))
  | fix (position : Point K)
  | geoError (message : String)
  | setPoint (which : RouteEnd) (p : Point K)
  | setDeparture (departure : String)
  | setSafety (safety : Bool)
  | setDetourBudget (detourBudget : K)
  | locateMe
  | reset
  | startNavigating
  | exitNavigating
  | select (kind : RouteKind)
  | timer
  | answered (seq : ℕ)

/-- What the page is built with, and the server's answer to the request of each number. -/
structure HomeEnv (K Route : Type) where
  kind : Route → RouteKind
  distanceMeters : Point K → Point K → K
  googleMapsDirectionsUrl : Point K → Point K → String
  answer : ℕ → RouteAsk K → RouteOutcome Route
  liveNavEnabled : Bool

/-- `REROUTE_MIN_MOVE_M`. -/
def rerouteMinMoveM {K : Type} [NatCast K] : K := ((25 : ℕ) : K)

variable {K Route : Type} [Field K] [LinearOrder K] (env : HomeEnv K Route)

/-- `insideCoverage`. -/
def insideCoverage (packs : List (ServedPack K)) (p : Point K) : Bool :=
  (packForPoint packs p).isSome

/-- The arguments of a request, when both ends are there. -/
def Inputs.ask (i : Inputs K) : Option (RouteAsk K) :=
  match i.origin, i.destination with
  | some origin, some destination =>
    some ⟨origin, destination, i.departure, i.safety, i.detourBudget⟩
  | _, _ => none

/-- The refusal that the page gives without asking. -/
def Inputs.refusal (i : Inputs K) (ask : RouteAsk K) : Option String :=
  i.packs.bind fun packs => preflight packs ask.origin ask.destination

namespace Search

variable (s : Search K Route)

/-- The endpoints are refused without asking. -/
def refused (refusal : String) : Search K Route :=
  { s with
    reqSeq := s.reqSeq + 1
    routes := []
    selected := none
    error := some refusal
    loading := false }

/-- A request goes out. -/
def asked (ask : RouteAsk K) : Search K Route :=
  { s with
    reqSeq := s.reqSeq + 1
    loading := true
    error := none
    inFlight := s.inFlight ++ [(s.reqSeq + 1, ask)] }

/-- The selection after an answer: the last one if it is there, or else the safe route. -/
def reselect (kinds : List RouteKind) (prev : Option RouteKind) : Option RouteKind :=
  (prev.filter (· ∈ kinds)).or ((kinds.find? (· = .safe)).or kinds.head?)

/-- The request is over. -/
def settled (seq : ℕ) : Search K Route :=
  { s with inFlight := s.inFlight.filter fun r => r.1 ≠ seq }

/-- `runRoute` from its answer on. A stale answer is dropped. -/
def answered (seq : ℕ) (ask : RouteAsk K) : Search K Route :=
  if seq ≠ s.reqSeq then s.settled seq
  else
    match env.answer seq ask with
    | .routes routes =>
      { s.settled seq with
        routes := routes
        googleMapsHref := some (env.googleMapsDirectionsUrl ask.origin ask.destination)
        selected := reselect (routes.map env.kind) s.selected
        loading := false }
    | .failed message =>
      { s.settled seq with
        routes := []
        selected := none
        error := some message
        loading := false }

/-- `reset`. -/
def cleared : Search K Route :=
  { s with
    reqSeq := s.reqSeq + 1
    routes := []
    selected := none
    error := none
    loading := false }

/-- `activeRoute`. -/
def activeRoute : Option Route := s.routes.find? fun r => some (env.kind r) = s.selected

end Search

namespace Home

/-- The page before its first event. Its first render starts the timer. -/
def initial (departure : String) : Home K Route :=
  let inputs : Inputs K := ⟨none, none, departure, true, ((1 : ℕ) : K) / ((4 : ℕ) : K), none⟩
  { inputs := inputs
    timer := some inputs
    search := ⟨[], none, none, false, none, 0, []⟩
    metaSettled := false
    followMode := true
    navigating := false
    geoPosition := none
    coverageNote := none }

/-- The effect of a new `runRoute`: its timer replaces the last one. -/
def arm (page : Home K Route) : Home K Route := { page with timer := some page.inputs }

def setInputs (page : Home K Route) (inputs : Inputs K) : Home K Route := { page with inputs }

/-- `setOrigin` of a fix: not for a move below the threshold. -/
def adopt (page : Home K Route) (next : Point K) : Home K Route :=
  match page.inputs.origin with
  | some prev =>
    if env.distanceMeters prev next < rerouteMinMoveM then page
    else (page.setInputs { page.inputs with origin := some next }).arm
  | none => (page.setInputs { page.inputs with origin := some next }).arm

/-- The effect that feeds the GPS into `origin`. -/
def gps (page : Home K Route) : Home K Route :=
  match page.geoPosition with
  | none => page
  | some position =>
    if page.followMode = false ∨ page.navigating = true ∨ page.metaSettled = false then page
    else
      match page.inputs.packs.filter fun packs => !insideCoverage packs position with
      | some packs =>
        { page with
          coverageNote := some ("You're outside the mapped area (" ++ coverageLabel packs ++
            ") — showing the default region. Pick points on the map to route.")
          followMode := false }
      | none => adopt env { page with coverageNote := none } position

/-- **`runRoute`**, up to its answer. -/
def runRoute (page : Home K Route) (closure : Inputs K) : Home K Route :=
  match closure.ask with
  | none => page
  | some ask =>
    match closure.refusal ask with
    | some refusal => { page with search := page.search.refused refusal }
    | none => { page with search := page.search.asked ask }

/-- `reset`: the timer starts again when there was an end to clear. -/
def resetPage (page : Home K Route) : Home K Route :=
  let inputs : Inputs K := { page.inputs with origin := none, destination := none }
  { page with
    inputs := inputs
    timer := if page.inputs.origin.isNone && page.inputs.destination.isNone then page.timer
      else some inputs
    search := page.search.cleared
    followMode := false
    navigating := false }

/-- **One event**, with the effects of its render. -/
def step (page : Home K Route) : HomeEvent K → Home K Route
  | .metaSettles packs =>
    if page.metaSettled then page
    else
      match packs with
      | none => gps env { page with metaSettled := true }
      | some packs =>
        gps env ({ page with
          metaSettled := true
          inputs := { page.inputs with packs := some packs } } : Home K Route).arm
  | .fix position => gps env { page with geoPosition := some position }
  | .geoError message => { page with coverageNote := some message }
  | .setPoint .origin p =>
    -- a deliberate choice must not be overwritten by the GPS
    ({ page with
      followMode := false
      inputs := { page.inputs with origin := some p } } : Home K Route).arm
  | .setPoint .destination p =>
    (page.setInputs { page.inputs with destination := some p }).arm
  | .setDeparture departure =>
    if departure = page.inputs.departure then page
    else (page.setInputs { page.inputs with departure := departure }).arm
  | .setSafety safety =>
    if safety = page.inputs.safety then page
    else (page.setInputs { page.inputs with safety := safety }).arm
  | .setDetourBudget detourBudget =>
    if detourBudget = page.inputs.detourBudget then page
    else (page.setInputs { page.inputs with detourBudget := detourBudget }).arm
  | .locateMe =>
    let located := { page with coverageNote := none, followMode := true }
    if page.followMode then located else gps env located
  | .reset => page.resetPage
  | .startNavigating =>
    -- the button is there for a live origin and a route
    if env.liveNavEnabled && (page.search.activeRoute env).isSome && page.followMode &&
      page.geoPosition.isSome then { page with navigating := true } else page
  | .exitNavigating => if page.navigating then gps env { page with navigating := false } else page
  | .select kind =>
    -- a card or a line of one of the routes
    if kind ∈ page.search.routes.map env.kind then
      { page with search := { page.search with selected := some kind } }
    else page
  | .timer =>
    match page.timer with
    | none => page
    | some closure => runRoute { page with timer := none } closure
  | .answered seq =>
    match page.search.inFlight.find? fun r => decide (r.1 = seq) with
    | none => page
    | some r => { page with search := page.search.answered env seq r.2 }

/-- **The page after the events.** -/
def run (departure : String) (events : List (HomeEvent K)) : Home K Route :=
  events.foldl (step env) (initial departure)

end Home

variable {env}

/-! ## What asks for nothing -/

/-- The page after something that leaves what is shown, and arms the timer if it changes an
input. -/
structure Kept (page page' : Home K Route) : Prop where
  search : page'.search = page.search
  timer : (page'.inputs = page.inputs ∧ page'.timer = page.timer) ∨
    page'.timer = some page'.inputs

namespace Kept

omit [Field K] [LinearOrder K] in
theorem trans {a b c : Home K Route} (h : Kept a b) (h' : Kept b c) : Kept a c where
  search := h'.search.trans h.search
  timer := by
    rcases h'.timer with ⟨hinputs, htimer⟩ | harmed
    · rcases h.timer with ⟨hinputs', htimer'⟩ | harmed
      · exact Or.inl ⟨hinputs.trans hinputs', htimer.trans htimer'⟩
      · exact Or.inr (by rw [htimer, hinputs, harmed])
    · exact Or.inr harmed

end Kept

omit [Field K] [LinearOrder K] in
theorem kept_rfl (page : Home K Route) : Kept page page := ⟨rfl, Or.inl ⟨rfl, rfl⟩⟩

omit [LinearOrder K] in
theorem kept_adopt [LinearOrder K] (page : Home K Route) (next : Point K) :
    Kept page (page.adopt env next) := by
  unfold Home.adopt
  split
  · split
    · exact kept_rfl page
    · exact ⟨rfl, Or.inr rfl⟩
  · exact ⟨rfl, Or.inr rfl⟩

/-- **The GPS effect asks for nothing.** -/
theorem kept_gps (page : Home K Route) : Kept page (page.gps env) := by
  unfold Home.gps
  split
  · exact kept_rfl page
  · split
    · exact kept_rfl page
    · split
      · exact ⟨rfl, Or.inl ⟨rfl, rfl⟩⟩
      · exact ⟨(kept_adopt _ _).search, (kept_adopt _ _).timer⟩

/-- So does anything before it that asks for nothing. -/
theorem kept_gps_of {page page' : Home K Route} (h : Kept page page') :
    Kept page (page'.gps env) :=
  h.trans (kept_gps page')

/-! ## The invariant -/

/-- What the page shows of an answer. -/
def Search.Shows (env : HomeEnv K Route) (search : Search K Route) (ask : RouteAsk K) :
    RouteOutcome Route → Prop
  | .routes routes => search.routes = routes ∧ search.error = none ∧ search.googleMapsHref =
      some (env.googleMapsDirectionsUrl ask.origin ask.destination)
  | .failed message => search.routes = [] ∧ search.error = some message

/-- What is shown belongs together. -/
structure Search.Consistent (env : HomeEnv K Route) (search : Search K Route) : Prop where
  /-- The spinner turns while the last request is in flight. -/
  loading : search.loading = true ↔ ∃ ask, (search.reqSeq, ask) ∈ search.inFlight
  selected : search.selected = none ↔ search.routes = []
  selected_mem : ∀ kind, search.selected = some kind → kind ∈ search.routes.map env.kind
  error : search.error ≠ none → search.routes = [] ∧ search.loading = false
  /-- The routes are one answer, and the link is for its two ends. -/
  answer : search.routes ≠ [] → ∃ n ≤ search.reqSeq, ∃ ask,
    env.answer n ask = .routes search.routes ∧ search.googleMapsHref =
      some (env.googleMapsDirectionsUrl ask.origin ask.destination)

/-- **The invariant** of what is shown. -/
structure Search.Inv (env : HomeEnv K Route) (s : Search K Route) : Prop
    extends s.Consistent env where
  seq_le : ∀ r ∈ s.inFlight, r.1 ≤ s.reqSeq
  seq_nodup : (s.inFlight.map Prod.fst).Nodup

/-- The page has done what its inputs ask for: it has refused, it is waiting or it shows the
answer. -/
def Home.Current (env : HomeEnv K Route) (page : Home K Route) (ask : RouteAsk K) : Prop :=
  match page.inputs.refusal ask with
  | some refusal => page.search.routes = [] ∧ page.search.error = some refusal
  | none => (page.search.reqSeq, ask) ∈ page.search.inFlight ∨
      page.search.loading = false ∧
        page.search.Shows env ask (env.answer page.search.reqSeq ask)

/-- **The invariant** of the page. -/
structure Home.Inv (env : HomeEnv K Route) (page : Home K Route) : Prop where
  timer : ∀ closure, page.timer = some closure → closure = page.inputs
  search : page.search.Inv env
  current : page.timer = none → ∀ ask, page.inputs.ask = some ask → page.Current env ask

namespace Search.Inv

omit [Field K] [LinearOrder K]

variable {s : Search K Route} (h : s.Inv env)

include h

/-- No request has a number that is yet to come. -/
theorem not_mem_succ (ask : RouteAsk K) : (s.reqSeq + 1, ask) ∉ s.inFlight := fun hmem => by
  have hle := h.seq_le _ hmem
  omega

theorem refused (refusal : String) : (s.refused refusal).Inv env where
  loading := iff_of_false Bool.false_ne_true fun ⟨ask, hask⟩ => h.not_mem_succ ask hask
  selected := iff_of_true rfl rfl
  selected_mem _ hkind := nomatch hkind
  error _ := ⟨rfl, rfl⟩
  answer hne := absurd rfl hne
  seq_le r hr := (h.seq_le r hr).trans (Nat.le_succ _)
  seq_nodup := h.seq_nodup

theorem cleared : s.cleared.Inv env where
  loading := iff_of_false Bool.false_ne_true fun ⟨ask, hask⟩ => h.not_mem_succ ask hask
  selected := iff_of_true rfl rfl
  selected_mem _ hkind := nomatch hkind
  error hne := absurd rfl hne
  answer hne := absurd rfl hne
  seq_le r hr := (h.seq_le r hr).trans (Nat.le_succ _)
  seq_nodup := h.seq_nodup

theorem asked (ask : RouteAsk K) : (s.asked ask).Inv env where
  loading := iff_of_true rfl ⟨ask, List.mem_append_right _ List.mem_cons_self⟩
  selected := h.selected
  selected_mem := h.selected_mem
  error hne := absurd rfl hne
  answer hne := by
    obtain ⟨n, hn, hanswer⟩ := h.answer hne
    exact ⟨n, hn.trans (Nat.le_succ _), hanswer⟩
  seq_le r hr := by
    rcases List.mem_append.mp hr with hr | hr
    · exact (h.seq_le r hr).trans (Nat.le_succ _)
    · rw [List.mem_singleton.mp hr]
      exact le_rfl
  seq_nodup := by
    show ((s.inFlight ++ [(s.reqSeq + 1, ask)]).map Prod.fst).Nodup
    rw [List.map_append, List.nodup_append]
    refine ⟨h.seq_nodup, List.nodup_singleton _, fun n hn m hm => ?_⟩
    obtain ⟨r, hr, rfl⟩ := List.mem_map.mp hn
    have hle := h.seq_le r hr
    rw [List.map_singleton, List.mem_singleton] at hm
    omega

theorem select {kind : RouteKind} (hkind : kind ∈ s.routes.map env.kind) :
    ({ s with selected := some kind } : Search K Route).Inv env where
  loading := h.loading
  selected := iff_of_false (Option.some_ne_none kind) fun hnil => by
    rw [show s.routes = [] from hnil] at hkind
    exact absurd hkind List.not_mem_nil
  selected_mem _ hsome := Option.some.inj hsome ▸ hkind
  error := h.error
  answer := h.answer
  seq_le := h.seq_le
  seq_nodup := h.seq_nodup

omit h in
theorem reselect_eq_none_iff {kinds : List RouteKind} {prev : Option RouteKind} :
    reselect kinds prev = none ↔ kinds = [] := by
  rw [reselect, Option.or_eq_none_iff, Option.or_eq_none_iff, List.head?_eq_none_iff]
  refine ⟨fun h => h.2.2, ?_⟩
  rintro rfl
  exact ⟨Option.filter_eq_none_iff.mpr fun _ _ => by simp, rfl, rfl⟩

omit h in
theorem reselect_mem {kinds : List RouteKind} {prev : Option RouteKind} {kind : RouteKind}
    (hkind : reselect kinds prev = some kind) : kind ∈ kinds := by
  rw [reselect, Option.or_eq_some_iff, Option.or_eq_some_iff] at hkind
  rcases hkind with hprev | ⟨-, hsafe | ⟨-, hhead⟩⟩
  · exact of_decide_eq_true (Option.filter_eq_some_iff.mp hprev).2
  · exact List.mem_of_find?_eq_some hsafe
  · exact List.mem_of_head? hhead

/-- The last request is the only one of its number. -/
theorem ask_unique {n : ℕ} {ask ask' : RouteAsk K} (hask : (n, ask) ∈ s.inFlight)
    (hask' : (n, ask') ∈ s.inFlight) : ask = ask' :=
  congrArg Prod.snd (List.inj_on_of_nodup_map h.seq_nodup hask hask' rfl)

/-- While the last request is in flight no error is shown. -/
theorem error_eq_none {ask : RouteAsk K} (hask : (s.reqSeq, ask) ∈ s.inFlight) :
    s.error = none := by
  by_contra herror
  exact absurd ((h.loading.mpr ⟨ask, hask⟩).symm.trans (h.error herror).2) (by decide)

/-- **The answer to the last request is shown.** -/
theorem shows_answered {ask : RouteAsk K} (hask : (s.reqSeq, ask) ∈ s.inFlight) :
    (s.answered env s.reqSeq ask).loading = false ∧
      (s.answered env s.reqSeq ask).Shows env ask (env.answer s.reqSeq ask) := by
  unfold Search.answered
  simp only [ne_eq, not_true_eq_false, if_false]
  cases hanswer : env.answer s.reqSeq ask with
  | routes routes => exact ⟨rfl, rfl, h.error_eq_none hask, rfl⟩
  | failed message => exact ⟨rfl, rfl, rfl⟩

omit h in
/-- A stale answer is dropped. -/
theorem answered_stale {seq : ℕ} (hseq : seq ≠ s.reqSeq) (ask : RouteAsk K) :
    s.answered env seq ask = s.settled seq :=
  if_pos hseq

omit h in
theorem not_mem_settled (seq : ℕ) (ask : RouteAsk K) : (seq, ask) ∉ (s.settled seq).inFlight :=
  fun hmem => of_decide_eq_true (List.mem_filter.mp hmem).2 rfl

omit h in
theorem reqSeq_answered (seq : ℕ) (ask : RouteAsk K) :
    (s.answered env seq ask).reqSeq = s.reqSeq := by
  unfold Search.answered
  split
  · rfl
  · split <;> rfl

theorem settled_seq_le (seq : ℕ) : ∀ r ∈ (s.settled seq).inFlight, r.1 ≤ s.reqSeq :=
  fun r hr => h.seq_le r (List.mem_of_mem_filter hr)

theorem settled_seq_nodup (seq : ℕ) : ((s.settled seq).inFlight.map Prod.fst).Nodup :=
  h.seq_nodup.sublist (List.filter_sublist.map Prod.fst)

theorem settled {seq : ℕ} (hseq : seq ≠ s.reqSeq) : (s.settled seq).Inv env where
  loading := by
    refine h.loading.trans (exists_congr fun ask => ?_)
    show _ ↔ (s.reqSeq, ask) ∈ s.inFlight.filter fun r => r.1 ≠ seq
    rw [List.mem_filter]
    exact (and_iff_left (decide_eq_true hseq.symm)).symm
  selected := h.selected
  selected_mem := h.selected_mem
  error := h.error
  answer := h.answer
  seq_le := h.settled_seq_le seq
  seq_nodup := h.settled_seq_nodup seq

theorem answered {seq : ℕ} {ask : RouteAsk K} (hask : (seq, ask) ∈ s.inFlight) :
    (s.answered env seq ask).Inv env := by
  by_cases hseq : seq = s.reqSeq
  · subst hseq
    have hnone : ¬ ∃ ask', (s.reqSeq, ask') ∈ (s.settled s.reqSeq).inFlight :=
      fun ⟨ask', hmem⟩ => not_mem_settled _ ask' hmem
    unfold Search.answered
    rw [if_neg (not_not.mpr rfl)]
    cases hanswer : env.answer s.reqSeq ask with
    | routes routes =>
      exact
        { loading := iff_of_false Bool.false_ne_true hnone
          selected := reselect_eq_none_iff.trans List.map_eq_nil_iff
          selected_mem := fun _ hkind => reselect_mem hkind
          error := fun herror => absurd (h.error_eq_none hask) herror
          answer := fun _ => ⟨s.reqSeq, le_rfl, ask, hanswer, rfl⟩
          seq_le := h.settled_seq_le s.reqSeq
          seq_nodup := h.settled_seq_nodup s.reqSeq }
    | failed message =>
      exact
        { loading := iff_of_false Bool.false_ne_true hnone
          selected := iff_of_true rfl rfl
          selected_mem := fun _ hkind => nomatch hkind
          error := fun _ => ⟨rfl, rfl⟩
          answer := fun hne => absurd rfl hne
          seq_le := h.settled_seq_le s.reqSeq
          seq_nodup := h.settled_seq_nodup s.reqSeq }
  · rw [answered_stale hseq]
    exact h.settled hseq

end Search.Inv

namespace Home.Inv

variable {page page' : Home K Route}

omit [Field K] in
theorem kept (h : page.Inv env) (hkept : Kept page page') : page'.Inv env where
  timer closure hclosure := by
    rcases hkept.timer with ⟨hinputs, htimer⟩ | harmed
    · rw [hinputs]
      exact h.timer closure (htimer ▸ hclosure)
    · rw [harmed] at hclosure
      exact (Option.some.inj hclosure).symm
  search := hkept.search ▸ h.search
  current hnone ask hask := by
    rcases hkept.timer with ⟨hinputs, htimer⟩ | harmed
    · have hcurrent := h.current (htimer ▸ hnone) ask (hinputs ▸ hask)
      unfold Home.Current at hcurrent ⊢
      rwa [hinputs, hkept.search]
    · rw [harmed] at hnone
      exact nomatch hnone

theorem initial (departure : String) : (Home.initial departure : Home K Route).Inv env where
  timer _ hclosure := (Option.some.inj hclosure).symm
  search :=
    { loading := iff_of_false Bool.false_ne_true fun ⟨_, h⟩ => absurd h List.not_mem_nil
      selected := iff_of_true rfl rfl
      selected_mem := fun _ h => nomatch h
      error := fun h => absurd rfl h
      answer := fun h => absurd rfl h
      seq_le := fun _ hr => absurd hr List.not_mem_nil
      seq_nodup := List.nodup_nil }
  current h := nomatch h

omit [Field K] in
theorem resetPage (h : page.Inv env) : page.resetPage.Inv env where
  timer closure hclosure := by
    unfold Home.resetPage at hclosure ⊢
    simp only at hclosure ⊢
    split at hclosure
    · rename_i hnone
      rw [Bool.and_eq_true, Option.isNone_iff_eq_none, Option.isNone_iff_eq_none] at hnone
      -- without ends there is nothing to clear
      rw [h.timer closure hclosure]
      cases hinputs : page.inputs
      rw [hinputs] at hnone
      simp only at hnone
      rw [hnone.1, hnone.2]
    · exact (Option.some.inj hclosure).symm
  search := h.search.cleared
  current _ ask hask := nomatch hask

omit [Field K] in
/-- **The timer asks for what the inputs are.** -/
theorem timer_step (h : page.Inv env) {closure : Inputs K} (hclosure : page.timer = some closure) :
    (({ page with timer := none } : Home K Route).runRoute closure).Inv env := by
  obtain rfl := h.timer closure hclosure
  unfold Home.runRoute
  cases hask : page.inputs.ask with
  | none =>
    show Home.Inv env { page with timer := none }
    exact ⟨fun _ h => (nomatch h), h.search, fun _ ask hsome => (nomatch hask.symm.trans hsome)⟩
  | some ask =>
    simp only
    cases hrefusal : page.inputs.refusal ask with
    | some refusal =>
      refine ⟨fun _ h => (nomatch h), h.search.refused refusal, fun _ ask' hsome => ?_⟩
      obtain rfl := Option.some.inj (hask.symm.trans hsome)
      unfold Home.Current
      simp only [hrefusal]
      exact ⟨rfl, rfl⟩
    | none =>
      refine ⟨fun _ h => (nomatch h), h.search.asked ask, fun _ ask' hsome => ?_⟩
      obtain rfl := Option.some.inj (hask.symm.trans hsome)
      unfold Home.Current
      simp only [hrefusal]
      exact Or.inl (List.mem_append_right _ List.mem_cons_self)

omit [Field K] in
/-- **An answer** is shown, if it is for the last request. -/
theorem answered (h : page.Inv env) {seq : ℕ} {ask : RouteAsk K}
    (hask : (seq, ask) ∈ page.search.inFlight) :
    ({ page with search := page.search.answered env seq ask } : Home K Route).Inv env := by
  refine ⟨h.timer, h.search.answered hask, fun hnone ask' hsome => ?_⟩
  have hcurrent := h.current hnone ask' hsome
  unfold Home.Current at hcurrent ⊢
  by_cases hseq : seq = page.search.reqSeq
  · -- the page was waiting, so for this answer
    subst hseq
    have hloading := h.search.loading.mpr ⟨ask, hask⟩
    cases hrefusal : page.inputs.refusal ask' with
    | some refusal =>
      rw [hrefusal] at hcurrent
      have herror := h.search.error_eq_none hask
      rw [hcurrent.2] at herror
      exact nomatch herror
    | none =>
      rw [hrefusal] at hcurrent
      rcases hcurrent with hwaiting | ⟨hidle, -⟩
      · obtain rfl := h.search.ask_unique hask hwaiting
        have hreq : (page.search.answered env page.search.reqSeq ask).reqSeq =
            page.search.reqSeq := Search.Inv.reqSeq_answered _ _
        simp only [hreq]
        exact Or.inr (h.search.shows_answered hask)
      · rw [hidle] at hloading
        exact absurd hloading Bool.false_ne_true
  · simp only [Search.Inv.answered_stale hseq]
    cases hrefusal : page.inputs.refusal ask' with
    | some refusal =>
      rw [hrefusal] at hcurrent
      exact hcurrent
    | none =>
      rw [hrefusal] at hcurrent
      refine hcurrent.imp_left fun hwaiting => ?_
      exact List.mem_filter.mpr ⟨hwaiting, decide_eq_true (Ne.symm hseq)⟩

/-- **Every event keeps the invariant.** -/
theorem step (h : page.Inv env) (e : HomeEvent K) : (page.step env e).Inv env := by
  cases e with
  | metaSettles packs =>
    simp only [Home.step]
    split
    · exact h
    · split
      · exact h.kept (kept_gps_of ⟨rfl, Or.inl ⟨rfl, rfl⟩⟩)
      · exact h.kept (kept_gps_of ⟨rfl, Or.inr rfl⟩)
  | fix position =>
    simp only [Home.step]
    exact h.kept (kept_gps_of ⟨rfl, Or.inl ⟨rfl, rfl⟩⟩)
  | geoError message => exact h.kept ⟨rfl, Or.inl ⟨rfl, rfl⟩⟩
  | setPoint which p => cases which <;> exact h.kept ⟨rfl, Or.inr rfl⟩
  | setDeparture | setSafety | setDetourBudget =>
    simp only [Home.step]
    split
    · exact h
    · exact h.kept ⟨rfl, Or.inr rfl⟩
  | locateMe =>
    simp only [Home.step]
    split
    · exact h.kept ⟨rfl, Or.inl ⟨rfl, rfl⟩⟩
    · exact h.kept (kept_gps_of ⟨rfl, Or.inl ⟨rfl, rfl⟩⟩)
  | reset => exact h.resetPage
  | startNavigating =>
    simp only [Home.step]
    split
    · exact h.kept ⟨rfl, Or.inl ⟨rfl, rfl⟩⟩
    · exact h
  | exitNavigating =>
    simp only [Home.step]
    split
    · exact h.kept (kept_gps_of ⟨rfl, Or.inl ⟨rfl, rfl⟩⟩)
    · exact h
  | select kind =>
    simp only [Home.step]
    split
    · rename_i hkind
      exact ⟨h.timer, h.search.select hkind, h.current⟩
    · exact h
  | timer =>
    simp only [Home.step]
    split
    · exact h
    · rename_i closure hclosure
      exact h.timer_step hclosure
  | answered seq =>
    simp only [Home.step]
    split
    · exact h
    · rename_i r hr
      have hseq : r.1 = seq := by simpa using List.find?_some hr
      subst hseq
      exact h.answered (List.mem_of_find?_eq_some hr)

/-- **The invariant holds after any events.** -/
theorem run (departure : String) (events : List (HomeEvent K)) :
    (Home.run env departure events).Inv env :=
  foldl_invariant (fun _ e _ h => h.step e) (initial departure)

end Home.Inv

/-! ## What the user sees -/

section Results

variable {page : Home K Route}

variable (env) in
/-- After the timer none is pending. -/
theorem timer_fired (page : Home K Route) : (page.step env .timer).timer = none ∧
    (page.step env .timer).inputs = page.inputs := by
  simp only [Home.step]
  split
  · rename_i hnone
    exact ⟨hnone, rfl⟩
  · unfold Home.runRoute
    split
    · exact ⟨rfl, rfl⟩
    · split <;> exact ⟨rfl, rfl⟩

/-- After the answer to the last request the page is not loading. -/
theorem loading_answered (h : page.Inv env) :
    let shown := page.step env (.answered page.search.reqSeq)
    shown.search.loading = false ∧ shown.timer = page.timer ∧ shown.inputs = page.inputs := by
  simp only [Home.step]
  split
  · rename_i hnone
    refine ⟨Bool.not_eq_true _ ▸ fun hloading => ?_, rfl, rfl⟩
    obtain ⟨ask, hask⟩ := h.search.loading.mp hloading
    exact absurd (List.find?_eq_none.mp hnone _ hask) (by simp)
  · rename_i r hr
    have hseq : r.1 = page.search.reqSeq := by simpa using List.find?_some hr
    have hask : (page.search.reqSeq, r.2) ∈ page.search.inFlight :=
      hseq ▸ List.mem_of_find?_eq_some hr
    exact ⟨(h.search.shows_answered hask).1, rfl, rfl⟩

omit [Field K] in
/-- **A page that waits for nothing** shows what its inputs ask for. -/
theorem Home.Inv.shown (h : page.Inv env) (hnone : page.timer = none)
    (hidle : page.search.loading = false) {ask : RouteAsk K} (hask : page.inputs.ask = some ask) :
    match page.inputs.refusal ask with
    | some refusal => page.search.routes = [] ∧ page.search.error = some refusal
    | none => page.search.Shows env ask (env.answer page.search.reqSeq ask) := by
  have hcurrent := h.current hnone ask hask
  unfold Home.Current at hcurrent
  cases hrefusal : page.inputs.refusal ask with
  | some refusal =>
    rw [hrefusal] at hcurrent
    exact hcurrent
  | none =>
    rw [hrefusal] at hcurrent
    rcases hcurrent with hwaiting | ⟨-, hshows⟩
    · have hloading := h.search.loading.mpr ⟨ask, hwaiting⟩
      rw [hidle] at hloading
      exact absurd hloading Bool.false_ne_true
    · exact hshows

/-! ### A page -/

/-- A page over one pack: the safe route is the second of two. -/
def berkeley : HomeEnv ℚ (RouteKind × ℕ) where
  kind := Prod.fst
  -- a degree of latitude on a sphere of 6371 km; these fixes have one longitude
  distanceMeters a b := 111195 * |b.lat - a.lat|
  googleMapsDirectionsUrl _ _ := "https://www.google.com/maps/dir/?api=1" ++
    "&origin=37.8716%2C-122.2727&destination=37.8044%2C-122.2712&travelmode=driving"
  answer _ _ := .routes [(.fast, 600), (.safe, 720)]
  liveNavEnabled := true

/-- The user is located and picks a destination; the routes come. -/
def planned : List (HomeEvent ℚ) :=
  [.metaSettles (some [⟨"berkeley_oakland", some [-1223/10, 377/10, -1221/10, 379/10]⟩]),
    .fix ⟨378716/10000, -1222727/10000⟩, .setPoint .destination ⟨378044/10000, -1222712/10000⟩,
    .timer, .answered 1]

/-- **What is shown belongs together**, in whatever order the user, the GPS and the answers come:
the routes are one answer and the link is for its two ends, the selection is one of them, an error
stands alone, and the page is loading just while its last request is in flight. -/
theorem page_consistent (env : HomeEnv K Route) (departure : String)
    (events : List (HomeEvent K)) : (Home.run env departure events).search.Consistent env :=
  (Home.Inv.run departure events).search.toConsistent

/-- **A page that waits for nothing shows the answer for its inputs**; and a page waits for no more
than its timer and the answer to the request that this makes. -/
theorem page_settles (env : HomeEnv K Route) (departure : String) (events : List (HomeEvent K)) :
    let page := Home.run env departure events
    (page.timer = none → page.search.loading = false → ∀ ask, page.inputs.ask = some ask →
      match page.inputs.refusal ask with
      | some refusal => page.search.routes = [] ∧ page.search.error = some refusal
      | none => page.search.Shows env ask (env.answer page.search.reqSeq ask)) ∧
    let asked := page.step env .timer
    let shown := asked.step env (.answered asked.search.reqSeq)
    shown.timer = none ∧ shown.search.loading = false ∧ shown.inputs = page.inputs := by
  intro page
  have h : page.Inv env := Home.Inv.run departure events
  refine ⟨fun hnone hidle ask hask => ?_, ?_⟩
  · exact h.shown hnone hidle hask
  · obtain ⟨htimer, hinputs⟩ := timer_fired env page
    obtain ⟨hloading, htimer', hinputs'⟩ := loading_answered (h.step .timer)
    exact ⟨htimer'.trans htimer, hloading, hinputs'.trans hinputs⟩

theorem page_settles_berkeley :
    let page := Home.run berkeley "2026-03-02T08:30" planned
    page.search.routes = [(.fast, 600), (.safe, 720)] ∧
      (page.step berkeley .timer).search.loading = false := by
  have h := page_settles berkeley "2026-03-02T08:30" planned
  obtain ⟨ask, hask⟩ := Option.isSome_iff_exists.mp
    (show (Home.run berkeley "2026-03-02T08:30" planned).inputs.ask.isSome = true by
      decide +kernel)
  have hrefusal : ((Home.run berkeley "2026-03-02T08:30" planned).inputs.ask.bind
      (Home.run berkeley "2026-03-02T08:30" planned).inputs.refusal) = none := by decide +kernel
  rw [hask, Option.bind_some] at hrefusal
  have hshown := h.1 (by decide +kernel) (by decide +kernel) ask hask
  rw [hrefusal] at hshown
  exact ⟨hshown.1, by decide +kernel⟩

/-- What comes in by itself. -/
def HomeEvent.Background : HomeEvent K → Prop
  | .metaSettles _ | .fix _ | .geoError _ | .timer | .answered _ => True
  | _ => False

/-- A page that is navigating and waits for nothing, with the plan of `page`. -/
structure Frozen (page after : Home K Route) : Prop where
  navigating : after.navigating = true
  metaSettled : after.metaSettled = true
  timer : after.timer = none
  loading : after.search.loading = false
  inputs : after.inputs = page.inputs
  routes : after.search.routes = page.search.routes
  selected : after.search.selected = page.search.selected
  googleMapsHref : after.search.googleMapsHref = page.search.googleMapsHref

/-- Nothing that comes in by itself changes the plan. -/
theorem Frozen.step {after : Home K Route} (h : Frozen page after) (hinv : after.Inv env)
    {e : HomeEvent K} (he : e.Background) : Frozen page (after.step env e) := by
  cases e with
  | metaSettles packs =>
    simp only [Home.step, h.metaSettled, if_true]
    exact h
  | fix position =>
    have hgps : ({ after with geoPosition := some position } : Home K Route).gps env =
        { after with geoPosition := some position } := by
      simp only [Home.gps, h.navigating, true_or, or_true, if_true]
    simp only [Home.step]
    rw [hgps]
    exact { h with }
  | geoError message => exact { h with }
  | timer =>
    simp only [Home.step, h.timer]
    exact h
  | answered seq =>
    simp only [Home.step]
    split
    · exact h
    · rename_i r hr
      have hseq : r.1 = seq := by simpa using List.find?_some hr
      have hstale : seq ≠ after.search.reqSeq := by
        rintro rfl
        have hloading := hinv.search.loading.mpr ⟨r.2, hseq ▸ List.mem_of_find?_eq_some hr⟩
        rw [h.loading] at hloading
        exact Bool.false_ne_true hloading
      rw [Search.Inv.answered_stale hstale]
      exact { h with }
  | setPoint | setDeparture | setSafety | setDetourBudget | locateMe | reset | startNavigating
  | exitNavigating | select => exact he.elim

/-- **The plan is frozen while navigating**: once the page waits for nothing, no fix, no answer and
no timer changes what was planned. -/
theorem planner_frozen (env : HomeEnv K Route) (departure : String)
    (events background : List (HomeEvent K)) (hbackground : ∀ e ∈ background, e.Background) :
    let page := Home.run env departure events
    let after := Home.run env departure (events ++ background)
    page.navigating = true → page.metaSettled = true → page.timer = none →
      page.search.loading = false →
      after.inputs = page.inputs ∧ after.search.routes = page.search.routes ∧
        after.search.selected = page.search.selected ∧
        after.search.googleMapsHref = page.search.googleMapsHref := by
  intro page after hnavigating hsettled htimer hloading
  have hstart : page.Inv env ∧ Frozen page page :=
    ⟨Home.Inv.run departure events, ⟨hnavigating, hsettled, htimer, hloading, rfl, rfl, rfl, rfl⟩⟩
  have hfrozen : after.Inv env ∧ Frozen page after := by
    unfold after Home.run
    rw [List.foldl_append]
    exact foldl_invariant (I := fun s => s.Inv env ∧ Frozen page s)
      (fun s e he h => ⟨h.1.step e, h.2.step h.1 (hbackground e he)⟩) hstart
  exact ⟨hfrozen.2.inputs, hfrozen.2.routes, hfrozen.2.selected, hfrozen.2.googleMapsHref⟩

theorem planner_frozen_berkeley :
    let after := Home.run berkeley "2026-03-02T08:30" (planned ++ [.startNavigating] ++
      [.fix ⟨378416/10000, -1222727/10000⟩, .geoError "timeout", .answered 1, .timer])
    after.search.routes = [(.fast, 600), (.safe, 720)] ∧ after.search.selected = some .safe := by
  have hfrozen := planner_frozen berkeley "2026-03-02T08:30" (planned ++ [.startNavigating])
    [.fix ⟨378416/10000, -1222727/10000⟩, .geoError "timeout", .answered 1, .timer]
    (by simp [HomeEvent.Background]) (by decide +kernel) (by decide +kernel) (by decide +kernel)
    (by decide +kernel)
  exact ⟨hfrozen.2.1.trans (by decide +kernel), hfrozen.2.2.1.trans (by decide +kernel)⟩

end Results

end RoutePlanner.Web
