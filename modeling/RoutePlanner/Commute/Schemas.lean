import Mathlib.Algebra.Order.Field.Basic
import Mathlib.Data.List.Sort

/-!
# `commute/schemas.py`: the wire models of the ingest

The request bodies as the server validates them. A number of a body is finite: `allow_inf_nan` and
`_all_finite` let no other through, so `Json` has no other.

* `Valid` of each model: its field constraints and its validator.
* `TraceChunk.orderedAndNotEmpty`, `TripEnd.predictionPrecedesEnd`: the validators, with the texts
  of their errors, and what it means to pass them.
* `modelDump`: the JSON value a model is stored as.
-/

namespace RoutePlanner.Commute

variable {K : Type} [Field K] [LinearOrder K]

/-! ## JSON -/

/-- A JSON value; an object is its `dict`, in insertion order. -/
inductive Json (K : Type) where
  | null
  | bool (b : Bool)
  | int (n : ℤ)
  | float (x : K)
  | str (s : String)
  | arr (items : List (Json K))
  | obj (fields : List (String × Json K))

/-- An optional field. -/
def Json.optional {α : Type} (f : α → Json K) : Option α → Json K
  | none => .null
  | some a => f a

/-! ## Limits -/

/-- `EPOCH_MS_MIN`: 2000-01-01T00:00:00Z. -/
def epochMsMin : ℤ := 946684800000

/-- `EPOCH_MS_MAX`: 2100-01-01T00:00:00Z. -/
def epochMsMax : ℤ := 4102444800000

/-- `MAX_FIXES_PER_CHUNK`. -/
def maxFixesPerChunk : ℕ := 600

/-- `MAX_ARTIFACTS_PER_CHUNK`. -/
def maxArtifactsPerChunk : ℕ := 16

/-- `MAX_ETA_S`: 48 h. -/
def maxEtaS : K := ((172800 : ℕ) : K)

/-- The bound of a latitude. -/
def latBound : K := ((90 : ℕ) : K)

/-- The bound of a longitude. -/
def lonBound : K := ((180 : ℕ) : K)

/-- The bound of a heading. -/
def headingBound : K := ((360 : ℕ) : K)

/-- `EpochMs`. -/
def EpochMs (t : ℤ) : Prop := epochMsMin ≤ t ∧ t ≤ epochMsMax

instance decEpochMs (t : ℤ) : Decidable (EpochMs t) := inferInstanceAs (Decidable (_ ∧ _))

/-! ## Models -/

/-- `TraceFix`. -/
structure TraceFix (K : Type) where
  t : ℤ
  lat : K
  lon : K
  speedMps : Option K
  accuracyM : K
  headingDeg : Option K

/-- `FollowedArtifact`: the artifact is any JSON object. -/
structure FollowedArtifact (K : Type) where
  effectiveAt : ℤ
  artifact : List (String × Json K)

/-- `TraceChunk`. -/
structure TraceChunk (K : Type) where
  fixes : List (TraceFix K)
  artifacts : List (FollowedArtifact K)

/-- `EtaPrediction`. -/
structure EtaPrediction (K : Type) where
  effectiveAt : ℤ
  etaS : K
  level : String
  profileVersion : Option String

/-- `TripEnd`. -/
structure TripEnd (K : Type) where
  endedAt : ℤ
  arrived : Bool
  prediction : Option (EtaPrediction K)

/-! ## Validation -/

/-- The fields of a `TraceFix`. -/
def TraceFix.Valid (f : TraceFix K) : Prop :=
  EpochMs f.t ∧ (-latBound ≤ f.lat ∧ f.lat ≤ latBound) ∧ (-lonBound ≤ f.lon ∧ f.lon ≤ lonBound) ∧
    (∀ s ∈ f.speedMps, 0 ≤ s) ∧ 0 ≤ f.accuracyM ∧ ∀ d ∈ f.headingDeg, 0 ≤ d ∧ d ≤ headingBound

instance decTraceFixValid (f : TraceFix K) : Decidable f.Valid :=
  inferInstanceAs (Decidable (_ ∧ _ ∧ _ ∧ _ ∧ _ ∧ _))

/-- The fields of an `EtaPrediction`. -/
def EtaPrediction.Valid (p : EtaPrediction K) : Prop :=
  EpochMs p.effectiveAt ∧ (0 ≤ p.etaS ∧ p.etaS ≤ maxEtaS) ∧
    (1 ≤ p.level.length ∧ p.level.length ≤ 32) ∧ ∀ v ∈ p.profileVersion, v.length ≤ 128

instance decEtaPredictionValid (p : EtaPrediction K) : Decidable p.Valid :=
  inferInstanceAs (Decidable (_ ∧ _ ∧ _ ∧ _))

/-- The loops of `_ordered_and_not_empty`: the error of the first entry, from the `i`-th, that is
not later than the one before it. -/
def outOfOrder (list field : String) (i : ℕ) : List ℤ → Option String
  | a :: b :: ts =>
    if b ≤ a then
      some s!"{list}[{i}].{field} must be later than {list}[{i - 1}].{field}"
    else outOfOrder list field (i + 1) (b :: ts)
  | _ => none

/-- `_ordered_and_not_empty`: its error. -/
def TraceChunk.orderedAndNotEmpty (c : TraceChunk K) : Option String :=
  if c.fixes.isEmpty && c.artifacts.isEmpty then
    some "a chunk must carry at least one fix or artifact"
  else
    match outOfOrder "fixes" "t" 1 (c.fixes.map TraceFix.t) with
    | some error => some error
    | none =>
      outOfOrder "artifacts" "effective_at" 1 (c.artifacts.map FollowedArtifact.effectiveAt)

/-- What `TraceChunk` accepts. -/
def TraceChunk.Valid (c : TraceChunk K) : Prop :=
  (∀ f ∈ c.fixes, f.Valid) ∧ c.fixes.length ≤ maxFixesPerChunk ∧
    (∀ a ∈ c.artifacts, EpochMs a.effectiveAt) ∧ c.artifacts.length ≤ maxArtifactsPerChunk ∧
    c.orderedAndNotEmpty = none

instance decTraceChunkValid (c : TraceChunk K) : Decidable c.Valid :=
  inferInstanceAs (Decidable (_ ∧ _ ∧ _ ∧ _ ∧ _))

/-- `_prediction_precedes_end`: its error. -/
def TripEnd.predictionPrecedesEnd (e : TripEnd K) : Option String :=
  match e.prediction with
  | some p =>
    if e.endedAt < p.effectiveAt then
      some "prediction.effective_at must not be later than ended_at"
    else none
  | none => none

/-- What `TripEnd` accepts. -/
def TripEnd.Valid (e : TripEnd K) : Prop :=
  EpochMs e.endedAt ∧ (∀ p ∈ e.prediction, p.Valid) ∧ e.predictionPrecedesEnd = none

instance decTripEndValid (e : TripEnd K) : Decidable e.Valid :=
  inferInstanceAs (Decidable (_ ∧ _ ∧ _))

/-! ## What passing the validators means -/

variable {F : Type}

theorem outOfOrder_eq_none_iff (list field : String) (i : ℕ) {ts : List ℤ} :
    outOfOrder list field i ts = none ↔ ts.Pairwise (· < ·) := by
  rw [← List.isChain_iff_pairwise]
  induction ts generalizing i with
  | nil => simp [outOfOrder]
  | cons a ts ih =>
    cases ts with
    | nil => simp [outOfOrder]
    | cons b ts =>
      rw [outOfOrder, List.isChain_cons_cons]
      split_ifs with h
      · simp only [false_iff, not_and]
        intro hlt
        omega
      · rw [ih]
        constructor
        · exact fun hts => ⟨by omega, hts⟩
        · exact fun hts => hts.2

/-- The error names an entry that is not later than the one before it. -/
theorem outOfOrder_eq_some {list field error : String} {i : ℕ} {ts : List ℤ}
    (h : outOfOrder list field i ts = some error) :
    ∃ j a b, ts[j]? = some a ∧ ts[j + 1]? = some b ∧ b ≤ a ∧
      error = s!"{list}[{i + j}].{field} must be later than {list}[{i + j - 1}].{field}" := by
  induction ts generalizing i with
  | nil => exact absurd h (by simp [outOfOrder])
  | cons a ts ih =>
    cases ts with
    | nil => exact absurd h (by simp [outOfOrder])
    | cons b ts =>
      rw [outOfOrder] at h
      split_ifs at h with hle
      · exact ⟨0, a, b, rfl, rfl, hle, (Option.some.inj h).symm⟩
      · obtain ⟨j, a', b', ha, hb, hle', rfl⟩ := ih h
        refine ⟨j + 1, a', b', ha, hb, hle', ?_⟩
        rw [show i + 1 + j = i + (j + 1) by omega]

theorem TraceChunk.orderedAndNotEmpty_eq_none_iff {c : TraceChunk F} :
    c.orderedAndNotEmpty = none ↔
      (c.fixes ≠ [] ∨ c.artifacts ≠ []) ∧ (c.fixes.map TraceFix.t).Pairwise (· < ·) ∧
        (c.artifacts.map FollowedArtifact.effectiveAt).Pairwise (· < ·) := by
  rw [← outOfOrder_eq_none_iff "fixes" "t" 1, ← outOfOrder_eq_none_iff "artifacts" "effective_at" 1]
  unfold orderedAndNotEmpty
  cases outOfOrder "fixes" "t" 1 (c.fixes.map TraceFix.t) <;>
    cases c.fixes <;> cases c.artifacts <;> simp

theorem TripEnd.predictionPrecedesEnd_eq_none_iff {e : TripEnd F} :
    e.predictionPrecedesEnd = none ↔ ∀ p ∈ e.prediction, p.effectiveAt ≤ e.endedAt := by
  unfold predictionPrecedesEnd
  cases e.prediction with
  | none => simp
  | some p => simp

/-! ## Dumps -/

/-- `TraceFix.model_dump`. -/
def TraceFix.modelDump (f : TraceFix K) : Json K :=
  .obj
    [("t", .int f.t), ("lat", .float f.lat), ("lon", .float f.lon),
      ("speed_mps", .optional .float f.speedMps), ("accuracy_m", .float f.accuracyM),
      ("heading_deg", .optional .float f.headingDeg)]

/-- `FollowedArtifact.model_dump`. -/
def FollowedArtifact.modelDump (a : FollowedArtifact K) : Json K :=
  .obj [("effective_at", .int a.effectiveAt), ("artifact", .obj a.artifact)]

/-- `TraceChunk.model_dump`. -/
def TraceChunk.modelDump (c : TraceChunk K) : Json K :=
  .obj
    [("fixes", .arr (c.fixes.map TraceFix.modelDump)),
      ("artifacts", .arr (c.artifacts.map FollowedArtifact.modelDump))]

/-- `EtaPrediction.model_dump`. -/
def EtaPrediction.modelDump (p : EtaPrediction K) : Json K :=
  .obj
    [("effective_at", .int p.effectiveAt), ("eta_s", .float p.etaS), ("level", .str p.level),
      ("profile_version", .optional .str p.profileVersion)]

/-- `TripEnd.model_dump`. -/
def TripEnd.modelDump (e : TripEnd K) : Json K :=
  .obj
    [("ended_at", .int e.endedAt), ("arrived", .bool e.arrived),
      ("prediction", .optional EtaPrediction.modelDump e.prediction)]

end RoutePlanner.Commute
