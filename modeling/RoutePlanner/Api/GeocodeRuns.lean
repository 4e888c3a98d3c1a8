import RoutePlanner.Api.Geocode
import RoutePlanner.Api.Redis

/-!
# `api/geocode.py`: what holds in every run

Requests interleave in any order, on any number of replicas.

* `Inv`: each cache is its replica's stores put into a `Fifo` map, each store came from a reply of
  Nominatim, and each answer is `Explained`. `Inv.run`: it holds after every run.
* `geocode_explained`: what an answer says of the requests, the registry and the events.
* `geocode_cache_kept`: a stored key is answered from the cache, at no cost, until 512 further
  stores of its replica.
-/

namespace RoutePlanner.Api

open RoutePlanner.Lib

variable {K L E : Type} [Field K] [LinearOrder K] [FloorRing K]

/-- The logs and the requests of `s` are still there in `s'`. -/
structure Grows (s s' : Deployment K L E) : Prop where
  requests : ∀ (i : ℕ) (req : GeocodeRequest), s.requests[i]? = some req →
    s'.requests[i]? = some req
  sent : s.sent ⊆ s'.sent
  stored : s.stored ⊆ s'.stored

namespace GeocodeApp

variable (app : GeocodeApp K L E)

/-- What is kept of the results, on a validated registry. -/
def shown (effective : Option String) (results : List (GeocodeResult K)) :
    List (GeocodeResult K) :=
  if effective = none then
    (results.filter fun r => r.Inside app.registry.packs).take resultLimit
  else results

omit [Field K] [FloorRing K] in
theorem present_shown (effective : Option String) (results : List (GeocodeResult K)) :
    present app.registry.packs effective results = .ok (app.shown effective results) :=
  present_eq (valid_of_validateCoverage (fun _ _ _ => le_trans) app.registry.valid) effective
    results

/-! ## What an answer says -/

/-- A store came from Nominatim's reply to what one request sent. -/
structure Fetched (events : List (GeocodeEvent K E)) (s : Deployment K L E) (st : Stored K)
    (req : GeocodeRequest) (effective : Option String) (params : Params K)
    (found : List (GeocodeResult K)) : Prop where
  arrived : s.requests[st.request]? = some req
  replica : req.replica = st.replica
  region : effectiveRegion app.names req.region = .ok effective
  key : st.key = app.key req.q effective
  asked : app.params req.q effective = .ok params
  sent : (st.request, params) ∈ s.sent
  replied : .reply st.request (.status 200 (some st.items)) ∈ events
  read : readItems st.items = some found
  results : st.results = app.shown effective found

/-- Request `i` waited for a token, and `answer` is what the limiter said, in the state the run had
reached. -/
def Answers (limiter : L) (events : List (GeocodeEvent K E)) (i : ℕ) (answer : Option (Option K)) :
    Prop :=
  ∃ before e after, events = before ++ .acquire i e :: after ∧
    (∃ effective, (app.run limiter before).stage i = some (.asking effective)) ∧
    (app.limiter.acquire (app.run limiter before).limiter e).1 = answer

/-- What a response says of the request `i` it answers. -/
def Explained (limiter : L) (events : List (GeocodeEvent K E)) (s : Deployment K L E) (i : ℕ)
    (req : GeocodeRequest) : Response K → Prop
  | .invalid => ¬req.InBounds ∧ i ∉ s.asked
  | .unknownRegion e => req.InBounds ∧ i ∉ s.asked ∧
    ∃ region ∉ app.names, req.region = some region ∧ e = ⟨region, app.names⟩
  | .ok results => req.InBounds ∧ ∃ st ∈ s.stored, ∃ req' effective params found,
    app.Fetched events s st req' effective params found ∧ st.replica = req.replica ∧
      effectiveRegion app.names req.region = .ok effective ∧
      st.key = app.key req.q effective ∧ results = st.results ∧ (st.request = i ∨ i ∉ s.asked)
  | .unavailable => app.Answers limiter events i none
  | .tooMany header => ∃ wait, app.Answers limiter events i (some (some wait)) ∧
    header = retryAfterHeader wait
  | .badGateway => ∃ code body, code ≠ 200 ∧ .reply i (.status code body) ∈ events
  | .serverError => .reply i .failed ∈ events ∨
    ∃ body, body.bind readItems = none ∧ .reply i (.status 200 body) ∈ events

/-- What a stage says of its request. -/
def StageOk (limiter : L) (events : List (GeocodeEvent K E)) (s : Deployment K L E) (i : ℕ)
    (req : GeocodeRequest) : Stage K → Prop
  | .asking effective => req.InBounds ∧ effectiveRegion app.names req.region = .ok effective ∧
    i ∉ s.asked
  | .upstream effective => req.InBounds ∧ effectiveRegion app.names req.region = .ok effective ∧
    ∃ params, app.params req.q effective = .ok params ∧ (i, params) ∈ s.sent
  | .answered response => app.Explained limiter events s i req response

/-- **The invariant.** -/
structure Inv (limiter : L) (events : List (GeocodeEvent K E)) (s : Deployment K L E) : Prop where
  caches : ∀ r, s.caches r = Fifo.puts cacheMax [] (s.storedOn r)
  stored : ∀ st ∈ s.stored, ∃ req effective params found,
    app.Fetched events s st req effective params found
  stages : ∀ i stage, s.stage i = some stage →
    ∃ req, s.requests[i]? = some req ∧ app.StageOk limiter events s i req stage
  arrived : ∀ i ∈ s.asked, i < s.requests.length
  asked : s.asked.Nodup
  sent : (s.sent.map Prod.fst).Sublist s.asked

variable {app} {limiter : L} {events : List (GeocodeEvent K E)} {s s' : Deployment K L E} {i : ℕ}
  {req : GeocodeRequest}

omit [Field K] [FloorRing K] in
theorem Fetched.grows {st : Stored K} {effective : Option String} {params : Params K}
    {found : List (GeocodeResult K)} (h : app.Fetched events s st req effective params found)
    (hgrows : Grows s s') : app.Fetched events s' st req effective params found :=
  { h with arrived := hgrows.requests _ _ h.arrived, sent := hgrows.sent h.sent }

theorem Explained.grows {response : Response K} (h : app.Explained limiter events s i req response)
    (hgrows : Grows s s') (hasked : i ∉ s.asked → i ∉ s'.asked) :
    app.Explained limiter events s' i req response := by
  cases response with
  | invalid => exact ⟨h.1, hasked h.2⟩
  | unknownRegion e => exact ⟨h.1, hasked h.2.1, h.2.2⟩
  | ok results =>
    obtain ⟨hbounds, st, hst, req', effective, params, found, hfetched, hrest⟩ := h
    obtain ⟨hreplica, hregion, hkey, hresults, hown⟩ := hrest
    exact ⟨hbounds, st, hgrows.stored hst, req', effective, params, found, hfetched.grows hgrows,
      hreplica, hregion, hkey, hresults, hown.imp_right hasked⟩
  | unavailable => exact h
  | tooMany header => exact h
  | badGateway => exact h
  | serverError => exact h

theorem StageOk.grows {stage : Stage K} (h : app.StageOk limiter events s i req stage)
    (hgrows : Grows s s') (hasked : i ∉ s.asked → i ∉ s'.asked) :
    app.StageOk limiter events s' i req stage := by
  cases stage with
  | asking effective => exact ⟨h.1, h.2.1, hasked h.2.2⟩
  | upstream effective =>
    obtain ⟨hbounds, hregion, params, hparams, hsent⟩ := h
    exact ⟨hbounds, hregion, params, hparams, hgrows.sent hsent⟩
  | answered response => exact Explained.grows h hgrows hasked

/-- One request goes on, and the others stay where they are. -/
theorem Inv.stages_update {stage : Stage K} (h : app.Inv limiter events s) (hgrows : Grows s s')
    (hstage : s'.stage = Function.update s.stage i (some stage))
    (hasked : ∀ j ≠ i, j ∉ s.asked → j ∉ s'.asked) (hreq : s'.requests[i]? = some req)
    (hok : app.StageOk limiter events s' i req stage) (j : ℕ) (stage' : Stage K)
    (hj : s'.stage j = some stage') :
    ∃ req, s'.requests[j]? = some req ∧ app.StageOk limiter events s' j req stage' := by
  rw [hstage] at hj
  by_cases hij : j = i
  · subst hij
    rw [Function.update_self] at hj
    obtain rfl := Option.some.inj hj
    exact ⟨req, hreq, hok⟩
  · rw [Function.update_of_ne hij] at hj
    obtain ⟨req', hreq', hok'⟩ := h.stages j stage' hj
    exact ⟨req', hgrows.requests _ _ hreq', hok'.grows hgrows (hasked j hij)⟩

/-! ## The steps -/

/-- What a lookup answers is so, or it goes on to ask. -/
theorem Inv.look (h : app.Inv limiter events s) (hnew : i ∉ s.asked) :
    app.StageOk limiter events s i req (app.look s req) := by
  unfold GeocodeApp.look
  by_cases hbounds : req.InBounds
  · rw [if_pos hbounds]
    cases hregion : effectiveRegion app.names req.region with
    | error e =>
      unfold effectiveRegion at hregion
      split at hregion
      · cases hregion
      · next region hreq =>
        split at hregion
        · cases hregion
        · next hnot =>
          cases hregion
          show app.Explained limiter events s i req (.unknownRegion ⟨region, app.names⟩)
          exact ⟨hbounds, hnew, region, hnot, hreq, rfl⟩
    | ok effective =>
      dsimp only
      cases hfound : lookup (app.key req.q effective) (s.caches req.replica) with
      | none =>
        show app.StageOk limiter events s i req (.asking effective)
        exact ⟨hbounds, hregion, hnew⟩
      | some results =>
        rw [h.caches] at hfound
        have hmem := (Fifo.mem_puts (Fifo.mem_of_lookup hfound)).resolve_right List.not_mem_nil
        obtain ⟨st, hst, heq⟩ := List.mem_map.mp hmem
        obtain ⟨hst, hreplica⟩ := List.mem_filter.mp hst
        obtain ⟨hkey, rfl⟩ := Prod.mk.inj heq
        obtain ⟨req', effective', params, found, hfetched⟩ := h.stored st hst
        have hsame : effective' = effective := by
          have hkeys := hfetched.key.symm.trans hkey
          exact (Prod.mk.inj hkeys).2
        subst hsame
        show app.Explained limiter events s i req (.ok st.results)
        exact ⟨hbounds, st, hst, req', effective', params, found, hfetched,
          of_decide_eq_true hreplica, hregion, hkey, rfl, Or.inr hnew⟩
  · rw [if_neg hbounds]
    exact ⟨hbounds, hnew⟩

theorem Inv.arrive (h : app.Inv limiter events s) (req : GeocodeRequest) :
    app.Inv limiter events
      { s.goTo s.requests.length (app.look s req) with requests := s.requests ++ [req] } := by
  have hnew : s.requests.length ∉ s.asked := fun hmem => Nat.lt_irrefl _ (h.arrived _ hmem)
  have hgrows : Grows s
      { s.goTo s.requests.length (app.look s req) with requests := s.requests ++ [req] } :=
    ⟨fun i req' hi => by
      obtain ⟨hlt, hget⟩ := List.getElem?_eq_some_iff.mp hi
      rw [List.getElem?_append_left hlt, hi], fun _ => id, fun _ => id⟩
  have hreq : (s.requests ++ [req])[s.requests.length]? = some req := List.getElem?_concat_length
  refine
    { caches := h.caches
      stored := fun st hst => ?_
      stages := h.stages_update hgrows rfl (fun _ _ => id) hreq
        ((h.look hnew).grows hgrows id)
      arrived := fun i hi => ?_
      asked := h.asked
      sent := h.sent }
  · obtain ⟨req', effective, params, found, hfetched⟩ := h.stored st hst
    exact ⟨req', effective, params, found, hfetched.grows hgrows⟩
  · have hlt := h.arrived i hi
    rw [List.length_append]
    omega

theorem Inv.goTo {stage : Stage K} (h : app.Inv limiter events s) (hreq : s.requests[i]? = some req)
    (hok : app.StageOk limiter events s i req stage) : app.Inv limiter events (s.goTo i stage) := by
  have hgrows : Grows s (s.goTo i stage) := ⟨fun _ _ => id, fun _ => id, fun _ => id⟩
  refine
    { caches := h.caches
      stored := fun st hst => ?_
      stages := h.stages_update hgrows rfl (fun _ _ => id) hreq (hok.grows hgrows id)
      arrived := h.arrived
      asked := h.asked
      sent := h.sent }
  obtain ⟨req', effective, params, found, hfetched⟩ := h.stored st hst
  exact ⟨req', effective, params, found, hfetched.grows hgrows⟩

/-- The limiter serves request `i`, and `more` goes to Nominatim for it. -/
theorem Inv.called {effective : Option String} {s' : Deployment K L E} {e : E}
    {more : List (ℕ × Params K)} (h : app.Inv limiter events s) (stage : Stage K)
    (hreq : s.requests[i]? = some req) (hstage : s.stage i = some (.asking effective))
    (hmore : more = [] ∨ ∃ params, more = [(i, params)])
    (hs' : s' = { s.goTo i stage with
      limiter := s'.limiter, calls := s.calls ++ [(i, e)], sent := s.sent ++ more })
    (hok : app.StageOk limiter events s' i req stage) : app.Inv limiter events s' := by
  obtain ⟨req', hreq', hasking⟩ := h.stages i _ hstage
  have hnew : i ∉ s.asked := hasking.2.2
  have hasked : s'.asked = s.asked ++ [i] := by
    rw [hs']
    exact List.map_append
  have hgrows : Grows s s' := by
    rw [hs']
    exact ⟨fun _ _ => id, List.subset_append_left _ _, fun _ => id⟩
  have hothers : ∀ j ≠ i, j ∉ s.asked → j ∉ s'.asked := by
    intro j hj hnot hmem
    rw [hasked, List.mem_append, List.mem_singleton] at hmem
    exact hmem.elim hnot hj
  have hlt : i < s.requests.length := (List.getElem?_eq_some_iff.mp hreq).1
  refine
    { caches := ?_
      stored := fun st hst => ?_
      stages := h.stages_update hgrows (by rw [hs']; rfl) hothers (hgrows.requests _ _ hreq) hok
      arrived := fun j hj => ?_
      asked := ?_
      sent := ?_ }
  · rw [hs']
    exact h.caches
  · rw [hs'] at hst
    obtain ⟨req', effective, params, found, hfetched⟩ := h.stored st hst
    exact ⟨req', effective, params, found, hfetched.grows hgrows⟩
  · rw [hasked, List.mem_append, List.mem_singleton] at hj
    rw [hs']
    rcases hj with hj | rfl
    · exact h.arrived j hj
    · exact hlt
  · rw [hasked]
    exact List.nodup_append_comm.mp (List.nodup_cons.mpr ⟨hnew, h.asked⟩)
  · have hsent : s'.sent = s.sent ++ more := by rw [hs']
    rw [hasked, hsent, List.map_append]
    refine h.sent.append ?_
    rcases hmore with rfl | ⟨params, rfl⟩
    · exact List.nil_sublist _
    · exact List.Sublist.refl _

theorem Inv.acquire {effective : Option String} {e : E} {before after : List (GeocodeEvent K E)}
    (h : app.Inv limiter events s) (he : events = before ++ .acquire i e :: after)
    (hs : app.run limiter before = s) (hreq : s.requests[i]? = some req)
    (hstage : s.stage i = some (.asking effective)) :
    app.Inv limiter events (app.afterAcquire
      { s with limiter := (app.limiter.acquire s.limiter e).2, calls := s.calls ++ [(i, e)] } i
      req.q effective (app.limiter.acquire s.limiter e).1) := by
  have hnothing : s.sent = s.sent ++ [] := (List.append_nil _).symm
  obtain ⟨req', hreq', hasking⟩ := h.stages i _ hstage
  obtain rfl : req = req' := Option.some.inj (hreq.symm.trans hreq')
  obtain ⟨hbounds, hregion, -⟩ := hasking
  have hanswers : ∀ {answer}, (app.limiter.acquire s.limiter e).1 = answer →
      app.Answers limiter events i answer := by
    intro answer hanswer
    subst hs
    exact ⟨before, e, after, he, ⟨effective, hstage⟩, hanswer⟩
  cases hanswer : (app.limiter.acquire s.limiter e).1 with
  | none =>
    refine h.called (.answered .unavailable) (e := e) hreq hstage (Or.inl rfl) ?_ ?_
    · rw [← hnothing]
      rfl
    · exact hanswers hanswer
  | some wait =>
    cases wait with
    | some wait =>
      refine h.called (.answered (.tooMany (retryAfterHeader wait))) (e := e) hreq hstage
        (Or.inl rfl) ?_ ?_
      · rw [← hnothing]
        rfl
      · exact ⟨wait, hanswers hanswer, rfl⟩
    | none =>
      obtain ⟨params, hparams⟩ := app.params_ok req.q effective
      refine h.called (.upstream effective) (e := e) hreq hstage (Or.inr ⟨params, rfl⟩) ?_ ?_
      · simp only [afterAcquire, hparams]
        rfl
      · refine ⟨hbounds, hregion, params, hparams, ?_⟩
        simp only [afterAcquire, hparams]
        exact List.mem_append_right _ (List.mem_singleton_self _)

variable (app) in
omit [Field K] [FloorRing K] in
/-- What Nominatim's reply leads to. -/
theorem afterReply_cases (s : Deployment K L E) (i : ℕ) (req : GeocodeRequest)
    (effective : Option String) (reply : Upstream K) :
    (∃ code body, code ≠ 200 ∧ reply = .status code body ∧
      app.afterReply s i req effective reply = s.answer i .badGateway) ∨
    ((reply = .failed ∨ ∃ body, body.bind readItems = none ∧ reply = .status 200 body) ∧
      app.afterReply s i req effective reply = s.answer i .serverError) ∨
    ∃ items found, reply = .status 200 (some items) ∧ readItems items = some found ∧
      app.afterReply s i req effective reply =
        (keep s ⟨i, req.replica, app.key req.q effective, items,
          app.shown effective found⟩).answer i (.ok (app.shown effective found)) := by
  cases reply with
  | failed => exact Or.inr (Or.inl ⟨Or.inl rfl, rfl⟩)
  | status code body =>
    by_cases hcode : code = 200
    · subst hcode
      cases body with
      | none => exact Or.inr (Or.inl ⟨Or.inr ⟨none, rfl, rfl⟩, rfl⟩)
      | some items =>
        cases hread : readItems items with
        | none =>
          refine Or.inr (Or.inl ⟨Or.inr ⟨some items, hread, rfl⟩, ?_⟩)
          simp only [afterReply, hread, ne_eq, not_true_eq_false, if_false]
        | some found =>
          refine Or.inr (Or.inr ⟨items, found, rfl, hread, ?_⟩)
          simp only [afterReply, hread, present_shown, ne_eq, not_true_eq_false, if_false]
    · refine Or.inl ⟨code, body, hcode, rfl, ?_⟩
      simp only [afterReply, ne_eq, hcode, not_false_eq_true, if_true]

omit [Field K] [FloorRing K] [LinearOrder K] in
theorem storedOn_keep (s : Deployment K L E) (st : Stored K) (r : ℕ) :
    (keep s st).storedOn r =
      s.storedOn r ++ if st.replica = r then [(st.key, st.results)] else [] := by
  unfold Deployment.storedOn keep
  rw [List.filter_append, List.map_append]
  by_cases hr : st.replica = r
  · simp [hr]
  · simp [hr]

omit [Field K] [FloorRing K] [LinearOrder K] in
theorem grows_keep (s : Deployment K L E) (st : Stored K) : Grows s (keep s st) :=
  ⟨fun _ _ => id, fun _ => id, List.subset_append_left _ _⟩

theorem Inv.keep {st : Stored K} {effective : Option String} {params : Params K}
    {found : List (GeocodeResult K)} (h : app.Inv limiter events s)
    (hst : app.Fetched events s st req effective params found) :
    app.Inv limiter events (keep s st) := by
  have hgrows := grows_keep s st
  refine
    { caches := fun r => ?_
      stored := fun st' hst' => ?_
      stages := fun j stage hj => ?_
      arrived := h.arrived
      asked := h.asked
      sent := h.sent }
  · rw [storedOn_keep]
    simp only [GeocodeApp.keep]
    by_cases hr : st.replica = r
    · subst hr
      rw [Function.update_self, if_pos rfl, Fifo.puts, List.foldl_append, h.caches]
      rfl
    · rw [Function.update_of_ne (Ne.symm hr), if_neg hr, List.append_nil]
      exact h.caches r
  · rcases List.mem_append.mp hst' with hmem | hmem
    · obtain ⟨req', effective', params', found', hfetched⟩ := h.stored st' hmem
      exact ⟨req', effective', params', found', hfetched.grows hgrows⟩
    · obtain rfl := List.mem_singleton.mp hmem
      exact ⟨req, effective, params, found, hst.grows hgrows⟩
  · obtain ⟨req', hreq', hok⟩ := h.stages j stage hj
    exact ⟨req', hreq', hok.grows hgrows id⟩

theorem Inv.reply {effective : Option String} {reply : Upstream K} (h : app.Inv limiter events s)
    (he : .reply i reply ∈ events) (hreq : s.requests[i]? = some req)
    (hstage : s.stage i = some (.upstream effective)) :
    app.Inv limiter events (app.afterReply s i req effective reply) := by
  obtain ⟨req', hreq', hupstream⟩ := h.stages i _ hstage
  obtain rfl : req = req' := Option.some.inj (hreq.symm.trans hreq')
  obtain ⟨hbounds, hregion, params, hparams, hsent⟩ := hupstream
  rcases afterReply_cases app s i req effective reply with ⟨code, body, hcode, rfl, heq⟩ |
    ⟨hwhy, heq⟩ | ⟨items, found, rfl, hread, heq⟩
  · rw [heq]
    exact h.goTo hreq ⟨code, body, hcode, he⟩
  · rw [heq]
    refine h.goTo hreq ?_
    rcases hwhy with rfl | ⟨body, hbody, rfl⟩
    · exact Or.inl he
    · exact Or.inr ⟨body, hbody, he⟩
  · rw [heq]
    have hfetched : app.Fetched events s
        ⟨i, req.replica, app.key req.q effective, items, app.shown effective found⟩ req effective
        params found := ⟨hreq, rfl, hregion, rfl, hparams, hsent, he, hread, rfl⟩
    exact (h.keep hfetched).goTo hreq ⟨hbounds, _, List.mem_append_right _
      (List.mem_singleton_self _), req, effective, params, found,
      hfetched.grows (grows_keep s _), rfl, hregion, rfl, rfl, Or.inl rfl⟩

/-- **One event** keeps the invariant. -/
theorem Inv.step {before after : List (GeocodeEvent K E)} {e : GeocodeEvent K E}
    (h : app.Inv limiter events (app.run limiter before)) (he : events = before ++ e :: after) :
    app.Inv limiter events (app.step (app.run limiter before) e) := by
  cases e with
  | arrive req => exact h.arrive req
  | acquire i e =>
    rw [GeocodeApp.step]
    split
    · next req effective hreq hstage => exact h.acquire he rfl hreq hstage
    · exact h
  | reply i reply =>
    rw [GeocodeApp.step]
    split
    · next req effective hreq hstage => exact h.reply (he ▸ List.mem_append_cons_self) hreq hstage
    · exact h

theorem Inv.init : app.Inv limiter events (Deployment.init limiter) where
  caches _ := rfl
  stored _ hst := absurd hst List.not_mem_nil
  stages _ _ hstage := by cases hstage
  arrived _ hi := absurd hi List.not_mem_nil
  asked := List.nodup_nil
  sent := List.Sublist.slnil

variable (app) in
/-- **Every run** keeps the invariant. -/
theorem Inv.run (limiter : L) (events : List (GeocodeEvent K E)) :
    app.Inv limiter events (app.run limiter events) :=
  foldl_invariant_at (fun _ _ _ he h => Inv.step h he) Inv.init

end GeocodeApp

/-! ## The results -/

/-- **Every answer is so.** In every run, a request that is answered was answered for the reason
the response gives: a 422 and an answer from the cache cost no token; a 429 and a 503 are what the
limiter said when the request asked it; a 200 shows what Nominatim replied to one request of the
same replica, query and effective region; the server fails only where Nominatim's reply does.
Without a region on a deployment of several packs, at most five results are shown, each inside a
served box. -/
theorem geocode_explained (app : GeocodeApp K L E) (limiter : L)
    (events : List (GeocodeEvent K E)) {i : ℕ} {response : Response K}
    (h : (app.run limiter events).stage i = some (.answered response)) :
    ∃ req, (app.run limiter events).requests[i]? = some req ∧
      app.Explained limiter events (app.run limiter events) i req response ∧
      ∀ results, response = .ok results → req.region = none → app.names.length ≠ 1 →
        results.length ≤ resultLimit ∧
          ∀ r ∈ results, ∃ pack ∈ app.registry.packs, pack.Covers ⟨r.lat, r.lon⟩ := by
  have hinv := GeocodeApp.Inv.run app limiter events
  obtain ⟨req, hreq, hok⟩ := hinv.stages i _ h
  refine ⟨req, hreq, hok, fun results hresults hregion hnames => ?_⟩
  subst hresults
  obtain ⟨-, st, -, req', effective, params, found, hfetched, -, heffective, hkey, rfl, -⟩ := hok
  have hnone : effective = none := by
    rw [hregion, effectiveRegion, if_neg hnames] at heffective
    exact (Except.ok.inj heffective).symm
  have hshown : st.results =
      (found.filter fun r => r.Inside app.registry.packs).take resultLimit := by
    rw [hfetched.results, GeocodeApp.shown, if_pos hnone]
  rw [hshown]
  refine ⟨List.length_take_le _ _, fun r hr => ?_⟩
  have hmem := List.mem_of_mem_take hr
  exact of_decide_eq_true (List.mem_filter.mp hmem).2

/-- Two metros in one process; on ASCII, `Char.toLower` is `str.lower`. -/
def metroApp : GeocodeApp ℚ (InProcessTokenBucket ℚ) ℚ :=
  ⟨twoMetros, List.map Char.toLower, inProcessLimiter⟩

/-- A query without a region, its token, and a reply of which one place is served. -/
def mainStreet : List (GeocodeEvent ℚ ℚ) :=
  [.arrive ⟨0, "Main St".toList, none⟩, .arrive ⟨1, "Main St".toList, some "metro_a"⟩,
    .acquire 0 0,
    .reply 0 (.status 200 (some [⟨some "Nowhere", some 0, some 0⟩,
      ⟨some "In A", some (21 / 2), some (21 / 2)⟩]))]

/-- The query again, in other letters, on the same replica: the cache answers. -/
theorem geocode_explained_main_street :
    ∃ req, (metroApp.run (.init 1 1 0)
        (mainStreet ++ [.arrive ⟨0, " main st".toList, none⟩])).requests[2]? = some req ∧
      metroApp.Explained (.init 1 1 0) (mainStreet ++ [.arrive ⟨0, " main st".toList, none⟩])
        (metroApp.run (.init 1 1 0) (mainStreet ++ [.arrive ⟨0, " main st".toList, none⟩])) 2 req
        (.ok [⟨"In A", 21 / 2, 21 / 2⟩]) ∧
      ∀ results, Response.ok [⟨"In A", 21 / 2, 21 / 2⟩] = .ok results → req.region = none →
        metroApp.names.length ≠ 1 →
        results.length ≤ resultLimit ∧
          ∀ r ∈ results, ∃ pack ∈ metroApp.registry.packs, pack.Covers ⟨r.lat, r.lon⟩ :=
  geocode_explained metroApp (.init 1 1 0) (mainStreet ++ [.arrive ⟨0, " main st".toList, none⟩])
    (by decide +kernel)

/-- **A stored answer is kept.** No cache ever holds more than 512 answers. Once a replica has
stored an answer under a key that its cache did not hold, then in every state of every run with
fewer than 512 stores of that replica since, a request for the key is answered at once with what
was stored last under it, and neither the limiter nor Nominatim hears of it. -/
theorem geocode_cache_kept (app : GeocodeApp K L E) (limiter : L)
    (events : List (GeocodeEvent K E)) :
    let s := app.run limiter events
    (∀ r, (s.caches r).length ≤ cacheMax) ∧
    ∀ (req : GeocodeRequest) (effective : Option String) (old new) (results),
      req.InBounds → effectiveRegion app.names req.region = .ok effective →
      s.storedOn req.replica = old ++ (app.key req.q effective, results) :: new →
      lookup (app.key req.q effective) (Fifo.puts cacheMax [] old) = none →
      new.length < cacheMax →
      let s' := app.step s (.arrive req)
      s'.stage s.requests.length =
          some (.answered (.ok (Fifo.latest (app.key req.q effective) results new))) ∧
        s'.limiter = s.limiter ∧ s'.calls = s.calls ∧ s'.sent = s.sent := by
  intro s
  have hinv := GeocodeApp.Inv.run app limiter events
  refine ⟨fun r => ?_, fun req effective old new results hbounds hregion hstored hnew hfew => ?_⟩
  · rw [hinv.caches r]
    exact Fifo.length_puts_le (by decide) (Nat.zero_le _) _
  · have hcache : lookup (app.key req.q effective) (s.caches req.replica) =
        some (Fifo.latest (app.key req.q effective) results new) := by
      rw [hinv.caches, hstored, Fifo.puts, List.foldl_append]
      exact Fifo.lookup_puts results hnew hfew
    have hlook : app.look s req =
        .answered (.ok (Fifo.latest (app.key req.q effective) results new)) := by
      simp only [GeocodeApp.look, if_pos hbounds, hregion, hcache]
    refine ⟨?_, rfl, rfl, rfl⟩
    simp only [GeocodeApp.step, Deployment.goTo, Function.update_self, hlook]

/-- What the first request stored, in other letters. -/
theorem geocode_cache_kept_main_street :
    let s := metroApp.run (.init 1 1 0) mainStreet
    let s' := metroApp.step s (.arrive ⟨0, "MAIN st ".toList, none⟩)
    s'.stage s.requests.length = some (.answered (.ok [⟨"In A", 21 / 2, 21 / 2⟩])) ∧
      s'.limiter = s.limiter ∧ s'.calls = s.calls ∧ s'.sent = s.sent :=
  (geocode_cache_kept metroApp (.init 1 1 0) mainStreet).2 ⟨0, "MAIN st ".toList, none⟩ none [] []
    [⟨"In A", 21 / 2, 21 / 2⟩] (by decide) (by decide) (by decide +kernel) rfl (by decide)

end RoutePlanner.Api
