import RoutePlanner.Recorder.Order

/-!
# The token a 401 is held against

The upload pass keeps the token of its request across the await, and marks the settings it finds
afterwards.

* `TokenStands`: when a 401 arrives, the settings still hold the token of the request, or one that
  was refused before.
* `rejected_iff`: just then are settings marked only where the server has refused their token. By
  then `optIn` may have stored another one (`other_token_rejected`).
-/

namespace RoutePlanner.Recorder

open RoutePlanner.Lib

variable {K : Type} [Field K] [LinearOrder K]

/-! ## Unauthorized tokens -/

/-- The server has answered 401 to a request that carried `token`. -/
def Unauthorized (L : List (Effect K)) (token : String) : Prop :=
  Effect.answered token 401 ∈ L ∧ ∃ item, Effect.send item token ∈ L

/-- Settings are marked only if their token was refused. -/
def Blamed (L : List (Effect K)) (settings : Option DeviceSettings) : Prop :=
  ∀ s ∈ settings, s.rejected = true → Unauthorized L s.token

/-- Of the settings that a device holds. -/
structure BlamesRight (w : World K) : Prop where
  mem : ∀ mem ∈ w.mem, Blamed w.log mem.settings
  disk : Blamed w.log w.disk.settings

section Lemmas

variable {L es : List (Effect K)} {settings : Option DeviceSettings} {token : String}

theorem Unauthorized.append (h : Unauthorized L token) : Unauthorized (L ++ es) token :=
  have ⟨item, hitem⟩ := h.2
  ⟨List.mem_append_left _ h.1, item, List.mem_append_left _ hitem⟩

theorem Blamed.append (h : Blamed L settings) : Blamed (L ++ es) settings :=
  fun s hs hr => (h s hs hr).append

theorem blamed_none : Blamed L none := fun s hs => absurd hs (Option.not_mem_none s)

/-- What a write puts in the settings is marked rightly. -/
def Effect.Blames (L : List (Effect K)) : Effect K → Prop
  | .apply ops _ => ∀ settings, ops.settings = some settings → Blamed L settings
  | _ => True

theorem blamed_foldl {disk : StoredState K} (h : Blamed L disk.settings)
    (hes : ∀ e ∈ es, e.Blames L) : Blamed L (es.foldl Effect.onDisk disk).settings := by
  refine foldl_invariant (I := fun disk : StoredState K => Blamed L disk.settings)
    (fun disk e he hd => ?_) h
  have hb := hes e he
  cases e with
  | apply ops ok =>
    cases ok
    · exact hd
    · show Blamed L (ops.settings.getD disk.settings)
      cases hs : ops.settings with
      | none => exact hd
      | some settings => exact hb settings hs
  | _ => exact hd

end Lemmas

/-! ## The invariant -/

/-- What the memory owes to the log. -/
structure MemTokens (L : List (Effect K)) (mem : Mem K) : Prop where
  settings : Blamed L mem.settings
  loaded : ∀ state, mem.cont = .initLoaded (some state) → Blamed L state.settings
  sending : ∀ item token, mem.drain = .sending item token → Effect.send item token ∈ L

/-- What a step returns after `L` has happened. -/
structure StepTokens (L : List (Effect K)) (disk : StoredState K) (out : Out K) : Prop where
  mem : MemTokens (L ++ out.2) out.1
  disk : Blamed (L ++ out.2) (out.2.foldl Effect.onDisk disk).settings

/-- The tokens of a world. -/
structure WorldTokens (w : World K) : Prop where
  mem : ∀ mem ∈ w.mem, MemTokens w.log mem
  disk : Blamed w.log w.disk.settings

/-- A request in flight may be held against the token the settings hold. -/
def Stands (L : List (Effect K)) (mem : Mem K) : Prop :=
  ∀ item token, mem.drain = .sending item token → ∀ s ∈ mem.settings,
    s.token = token ∨ Unauthorized L s.token

section Steps

variable {L es : List (Effect K)} {disk : StoredState K} {mem mem' mem₁ : Mem K}
  {loaded : List (TripRecord K)} {out : Out K}

/-- A step that leaves the settings and the request in flight. -/
theorem MemTokens.keep (h : MemTokens L mem) (hdisk : Blamed L disk.settings)
    (hs : mem'.settings = mem.settings) (hd : mem'.drain = mem.drain)
    (hc : ∀ state, mem'.cont ≠ .initLoaded (some state))
    (hes : ∀ e ∈ es, e.Blames (L ++ es)) : StepTokens L disk (mem', es) := by
  refine ⟨⟨?_, fun state hl => absurd hl (hc state), fun item token hsend => ?_⟩,
    blamed_foldl hdisk.append hes⟩
  · rw [hs]
    exact h.settings.append
  · exact List.mem_append_left _ (h.sending item token (hd ▸ hsend))

/-- **The upload pass and the timer.** -/
theorem upload_tokens (h : MemTokens L mem) (hdisk : Blamed L disk.settings)
    (hstands : ∀ token, Effect.answered token 401 ∈ out.2 → Stands L mem) (hup : Upload mem out) :
    StepTokens L disk out := by
  have hkeep : ∀ {mem' : Mem K} {es : List (Effect K)}, mem.Beside mem' →
      mem'.settings = mem.settings →
      (∀ item token, mem'.drain = .sending item token → Effect.send item token ∈ L ++ es) →
      (∀ e ∈ es, e.Blames (L ++ es)) → StepTokens L disk (mem', es) := by
    intro mem' es hb hs hd hes
    refine ⟨⟨?_, fun state hc => ?_, hd⟩, blamed_foldl hdisk.append hes⟩
    · rw [hs]
      exact h.settings.append
    · exact (h.loaded state (hb.cont ▸ hc)).append
  cases hup with
  | quiet hb hs ho hd hdel hes =>
    refine hkeep hb hs (fun item token hsend => ?_) fun e he => ?_
    · rw [hsend] at hd
      exact absurd hd (by simp [Drain.items])
    · rcases hes e he with rfl | ⟨token, status, rfl⟩ <;> trivial
  | send hb hs hs' ho hi hd =>
    refine hkeep hb hs' (fun item token hsend => ?_) fun e he => ?_
    · rw [hd] at hsend
      obtain ⟨rfl, rfl⟩ := Drain.sending.inj hsend
      exact List.mem_append_right _ (List.mem_singleton_self _)
    · rw [List.mem_singleton.mp he]
      trivial
  | delete hb hs ho hd hd' =>
    refine hkeep hb hs (fun item token hsend => ?_) fun e he => ?_
    · rw [hd'] at hsend
      cases hsend
    · rcases List.mem_pair.mp he with rfl | rfl
      · trivial
      · exact fun settings hset => by cases hset
  | mark hb hd hs hs' ho hd' =>
    rename_i mem' item token s ok
    have hblamed : Blamed (L ++ [.answered token 401, .apply { (StorageOps.nop : StorageOps K) with
        settings := some (some { s with rejected := true }) } ok])
        (some { s with rejected := true }) := by
      intro s' hs' hr
      rw [← Option.mem_some.mp hs']
      rcases hstands token List.mem_cons_self item token hd s hs with rfl | hun
      · exact ⟨List.mem_append_right _ List.mem_cons_self, item,
          List.mem_append_left _ (h.sending item _ hd)⟩
      · exact hun.append
    refine ⟨⟨hs' ▸ hblamed, fun state hc => ?_, fun item token hsend => ?_⟩,
      blamed_foldl hdisk.append fun e he => ?_⟩
    · exact (h.loaded state (hb.cont ▸ hc)).append
    · rw [hd'] at hsend
      cases hsend
    · rcases List.mem_pair.mp he with rfl | rfl
      · trivial
      · intro settings hset
        obtain rfl := Option.some.inj hset
        exact hblamed
  | busy hb hs ho hd =>
    refine hkeep hb hs (fun item token hsend => ?_) fun e he => absurd he List.not_mem_nil
    exact List.mem_append_left _ (h.sending item token (hd ▸ hsend))

/-- What an operation goes on with. -/
theorem MemTokens.prep (h : MemTokens L mem) (hp : Prep mem mem₁ loaded) :
    Blamed L mem₁.settings ∧ mem₁.drain = mem.drain := by
  cases hp with
  | same hfailed hclosing htrips hitems hup hkeep ht hs ho hd hq => exact ⟨hs ▸ h.settings, hd⟩
  | loaded hc => exact ⟨h.loaded _ hc, rfl⟩
  | finalized hc =>
    rw [Mem.enqueue_settings, Mem.enqueue_drain]
    exact ⟨h.settings, rfl⟩
  | queued hc =>
    rw [Mem.enqueue_settings, Mem.enqueue_drain]
    exact ⟨h.settings, rfl⟩
  | cleared hc => exact ⟨blamed_none, rfl⟩

section Operations

variable [FloorRing K] {opts : RecorderOptions K} {env : Env K}

omit [FloorRing K] in
theorem drainLoop_answered (token : String) (status : ℕ) :
    Effect.answered token status ∉ (drainLoop opts mem).2 := by
  unfold drainLoop
  split
  · exact List.not_mem_nil
  · split <;> simp

omit [FloorRing K] in
/-- A flush receives no answer. -/
theorem flush_answered (token : String) (status : ℕ) :
    Effect.answered token status ∉ (flush opts mem).2 := by
  unfold flush
  split
  · exact drainLoop_answered token status
  · exact List.not_mem_nil

omit [FloorRing K] in
theorem timerStep_answered (token : String) (status : ℕ) :
    Effect.answered token status ∉ (timerStep opts mem).2 := by
  unfold timerStep
  split
  · exact flush_answered token status
  · exact List.not_mem_nil

omit [FloorRing K] in
/-- The answer of a step is the one it read. -/
theorem drainStep_answered {env : DrainEnv K} {token : String} {status : ℕ}
    (h : Effect.answered token status ∈ (drainStep opts env mem).2) : env.reply = some status := by
  unfold drainStep at h
  split at h
  · exact absurd h List.not_mem_nil
  · unfold drainAnswer at h
    split at h
    · exact absurd h List.not_mem_nil
    · rename_i status' hreply
      rw [hreply]
      split at h
      · simp_all
      · split at h <;> simp_all
      · simp_all
  · exact absurd h (drainLoop_answered token status)
  all_goals simp at h

/-- **Every move marks the settings rightly.** -/
theorem move_tokens (h : MemTokens L mem) (hdisk : Blamed L disk.settings)
    (hm : Move opts env disk mem out) : StepTokens L disk out := by
  have hon : ∀ {mem₁ : Mem K} {loaded}, Prep mem mem₁ loaded →
      MemTokens L { mem₁ with cont := .idle } := by
    intro mem₁ loaded hp
    obtain ⟨hs, hd⟩ := h.prep hp
    exact ⟨hs, fun _ hc => (by cases hc), fun item token hsend => h.sending item token (hd ▸ hsend)⟩
  have hnone : ∀ (ops : StorageOps K) (ok : Bool), ops.settings = none →
      ∀ L : List (Effect K), (Effect.apply ops ok).Blames L :=
    fun ops ok hops L settings hset => absurd (hops.symm.trans hset) (by simp)
  have hpair : ∀ {t s ops ok} {L : List (Effect K)}, (Effect.apply ops ok).Blames L →
      ∀ e ∈ [Effect.sealed t s, .apply ops ok], e.Blames L := by
    intro t s ops ok L hb e he
    rcases List.mem_pair.mp he with rfl | rfl
    · trivial
    · exact hb
  cases hm with
  | rest hc =>
    exact h.keep hdisk rfl rfl (by simp [hc]) fun _ he => absurd he List.not_mem_nil
  | thrown hc =>
    refine h.keep hdisk rfl rfl (by simp) fun e he => ?_
    rw [List.mem_singleton.mp he]
    trivial
  | wait hp hl hc =>
    refine ⟨⟨(hon hp).settings.append, fun state hstate => ?_, fun item token hsend =>
      List.mem_append_left _ ((hon hp).sending item token hsend)⟩, hdisk.append⟩
    cases hc <;> cases hstate
    exact hdisk.append
  | flush hp hl =>
    exact upload_tokens (hon hp) hdisk (fun token ha => absurd ha (flush_answered token 401))
      (flush_upload (Mem.Beside.refl _) rfl rfl rfl)
  | closeOpen hp hl ht arrived hn hop =>
    exact (hon hp).keep hdisk rfl rfl (by simp) (hpair (hnone _ _ rfl _))
  | closeLoaded hp =>
    exact (hon hp).keep hdisk rfl rfl (by simp) (hpair (hnone _ _ rfl _))
  | startTrip hp hl hop =>
    refine (hon hp).keep hdisk rfl rfl (by simp) fun e he => ?_
    rcases List.mem_pair.mp he with rfl | rfl
    · trivial
    · exact hnone _ _ rfl _
  | advance hp hl hc hrec ht hop ha =>
    refine (hon hp).keep hdisk rfl rfl (by simp) fun e he => ?_
    rcases List.mem_cons.mp he with rfl | he
    · cases ha <;> trivial
    · exact hpair (hnone _ _ rfl _) e he
  | settings hp hl hs hc =>
    rename_i mem₁ loaded s c
    have hblamed : Blamed L (some s) := by
      intro s' hs' hr
      obtain rfl := Option.mem_some.mp hs'
      obtain ⟨s₀, hmem, hr₀, htoken⟩ := hs hr
      exact htoken ▸ h.settings s₀ hmem hr₀
    have hready : MemTokens L { mem₁ with settings := some s, cont := .idle } :=
      ⟨hblamed, fun _ hc => (by cases hc), (hon hp).sending⟩
    refine hready.keep hdisk rfl rfl (fun state hstate => ?_) fun e he => ?_
    · rcases hc with rfl | ⟨enabled, rfl⟩ <;> cases hstate
    · rw [List.mem_singleton.mp he]
      intro settings hset
      obtain rfl := Option.some.inj hset
      exact hblamed.append
  | forget hc =>
    refine h.keep hdisk rfl rfl (by simp) fun e he => ?_
    rw [List.mem_singleton.mp he]
    intro settings hset
    obtain rfl := Option.some.inj hset
    exact blamed_none

end Operations

end Steps

/-! ## Runs -/

section Run

variable [FloorRing K] {opts : RecorderOptions K} {w : World K} {e : Event K}

/-- When a 401 arrives, the settings hold the token of the request, or one that was refused before,
or there are none. -/
def TokenStands (w : World K) : Event K → Prop
  | .drainStep env => env.reply = some 401 → ∀ mem ∈ w.mem, Stands w.log mem
  | _ => True

omit [FloorRing K] in
theorem WorldTokens.blames (h : WorldTokens w) : BlamesRight w :=
  ⟨fun mem hmem => (h.mem mem hmem).settings, h.disk⟩

omit [FloorRing K] in
theorem WorldTokens.emit {out : Out K} (h : StepTokens w.log w.disk out) :
    WorldTokens (w.emit out) :=
  ⟨fun _ hmem => Option.mem_some.mp hmem ▸ h.mem, h.disk⟩

/-- **One event marks the settings rightly.** -/
theorem step_tokens (hstands : TokenStands w e) (h : WorldTokens w) :
    WorldTokens (step opts w e) := by
  unfold step
  split
  · refine ⟨fun mem hmem => ?_, h.disk⟩
    rw [← Option.mem_some.mp hmem]
    exact ⟨blamed_none, fun _ hc => (by cases hc), fun _ _ hd => (by cases hd)⟩
  · exact h
  · rename_i mem op hmem
    refine ⟨fun mem' hmem' => ?_, h.disk⟩
    rw [← Option.mem_some.mp hmem']
    obtain ⟨h1, h2, h3⟩ := h.mem mem hmem
    exact ⟨h1, h2, h3⟩
  · rename_i mem env hmem
    exact WorldTokens.emit (move_tokens (h.mem mem hmem) h.disk opStep_move)
  · rename_i mem env hmem
    exact WorldTokens.emit (upload_tokens (h.mem mem hmem) h.disk
      (fun token ha => hstands (drainStep_answered ha) mem hmem) (drainStep_upload env))
  · rename_i mem hmem
    exact WorldTokens.emit (upload_tokens (h.mem mem hmem) h.disk
      (fun token ha => absurd ha (timerStep_answered token 401)) timerStep_upload)
  · exact ⟨fun mem hmem => absurd hmem (Option.not_mem_none mem), h.disk⟩
  · exact h

/-- Where a 401 finds another token, that one is marked. -/
theorem tokenStands_of_step (hb : BlamesRight (step opts w e)) :
    TokenStands w e := by
  cases e with
  | drainStep env =>
    intro hreply mem hmem item token hd s hs
    have hout : drainStep opts env mem =
        ({ mem with settings := some { s with rejected := true }, drain := .rejecting env.ok },
          [.answered token 401, .apply { StorageOps.nop with
            settings := some (some { s with rejected := true }) } env.ok]) := by
      rw [Option.mem_def] at hs
      simp only [drainStep, hd, drainAnswer, hreply, hs]
      rfl
    have hstep : step opts w (.drainStep env) = w.emit (drainStep opts env mem) := by
      rw [Option.mem_def] at hmem
      simp only [step, hmem]
    rw [hstep, hout] at hb
    obtain ⟨hanswered, item', hitem⟩ := hb.mem _ rfl _ rfl rfl
    rcases List.mem_append.mp hanswered with ha | ha
    · refine Or.inr ⟨ha, item', (List.mem_append.mp hitem).resolve_right fun hmem => ?_⟩
      rcases List.mem_pair.mp hmem with hmem | hmem <;> cases hmem
    · rcases List.mem_pair.mp ha with ha | ha
      · exact Or.inl (Effect.answered.inj ha).1
      · cases ha
  | _ => trivial

/-- **A 401 blames the right token just when the token stands.** -/
theorem rejected_iff (opts : RecorderOptions K) (events : List (Event K)) :
    (∀ n, BlamesRight (run opts (events.take n))) ↔
      Along (step opts) TokenStands .init events := by
  refine along_iff (I := WorldTokens) (fun w => WorldTokens.blames) (fun w e => step_tokens)
    (fun w e _ => tokenStands_of_step) ⟨fun mem hmem => ?_, blamed_none⟩
  exact absurd hmem (Option.not_mem_none mem)

end Run

/-! ## A ride with two tokens -/

section Ride

/-- The effect is this answer. -/
def Effect.answers (token : String) (status : ℕ) : Effect K → Bool
  | .answered token' status' => decide (token' = token ∧ status' = status)
  | _ => false

theorem answered_mem_iff {L : List (Effect K)} {token : String} {status : ℕ} :
    Effect.answered token status ∈ L ↔ L.any (Effect.answers token status) = true := by
  rw [List.any_eq_true]
  constructor
  · exact fun h => ⟨_, h, decide_eq_true ⟨rfl, rfl⟩⟩
  · rintro ⟨e, he, ha⟩
    cases e with
    | answered token' status' =>
      obtain ⟨rfl, rfl⟩ := of_decide_eq_true ha
      exact he
    | _ => exact absurd ha Bool.false_ne_true

instance decAnsweredMem (L : List (Effect K)) (token : String) (status : ℕ) :
    Decidable (Effect.answered token status ∈ L) :=
  decidable_of_iff _ answered_mem_iff.symm

/-- A chunk is on its way with one token when another one is stored, and good. Then the answer
comes. -/
def rideReplaced : List (Event ℚ) :=
  .launch :: rideOn (.optIn "token") 4 ++
    [.call (.startTrip shortRoute none), .opStep rideEnv, .opStep nextEnv] ++
    rideOn (.addFix (rideFix 0 0)) 2 ++ rideOn (.addFix (rideFix 60000 (5 / 1000))) 2 ++
    rideOn (.addFix (rideFix 125000 (9 / 1000))) 2 ++ rideOn (.optIn "other") 4 ++
    [.drainStep ⟨true, 0, 0, some 401, none⟩]

/-- The other token is marked, which the server never refused. -/
theorem other_token_rejected :
    (run rideOpts rideReplaced).mem.bind Mem.settings = some ⟨"other", "tester", true, true⟩ ∧
      Effect.answered "other" 401 ∉ (run rideOpts rideReplaced).log ∧
      ¬ BlamesRight (run rideOpts rideReplaced) := by
  have hset : (run rideOpts rideReplaced).mem.bind Mem.settings =
      some ⟨"other", "tester", true, true⟩ := by decide +kernel
  have hnot : Effect.answered "other" 401 ∉ (run rideOpts rideReplaced).log := by decide +kernel
  refine ⟨hset, hnot, fun h => ?_⟩
  obtain ⟨mem, hmem, hs⟩ := Option.bind_eq_some_iff.mp hset
  exact hnot (h.mem mem hmem _ hs rfl).1

end Ride

end RoutePlanner.Recorder
