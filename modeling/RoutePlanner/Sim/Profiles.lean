import Mathlib.Tactic.NormNum
import RoutePlanner.Costs.Query
import RoutePlanner.Lib.Interpolate

/-!
# `sim/profiles.py`, `sim/snapshot.py`: traffic by the time of day

Model of the lookup in the hourly tables and of the snapshot made from it. A table has 24 entries,
that of hour `h` at half past, and the lookup goes on round midnight. Arithmetic is exact.

* `interpolateHourly_eq`: the lookup is `interpolate` of the table repeated day after day.
* `multipliers_follow_tables`: the multipliers stay within their tables and are the tables' entries
  at half past; and two departures, counted round the clock, have multipliers that differ by no more
  than the tables do in that time.
* `speedMult_mem`: with tables in `(0, 1]` no snapshot stops the traffic or speeds it up.
-/

namespace RoutePlanner.Sim

open RoutePlanner.Costs RoutePlanner.Lib
open RoutePlanner.Ingestion (pyMod)

/-! ## The code -/

/-- An hourly table. The code asserts its length. -/
structure Hourly (K : Type) where
  entries : List K
  length_eq : entries.length = 24

/-- `[sim.profiles.<group>]`. -/
structure Profile (K : Type) where
  speedMult : Hourly K
  volumeMult : Hourly K

/-- The table `[sim]`: the groups in their order, a profile for each name, and the base volumes. -/
structure SimCfg (K : Type) where
  classGroups : List (String × List RoadClass)
  profile : String → Profile K
  baseVphPerLane : RoadClass → K

/-- What is read of a departure. -/
structure ClockTime where
  hour : ℕ
  minute : ℕ
  second : ℕ
  hour_lt : hour < 24
  minute_lt : minute < 60
  second_lt : second < 60

section

variable {K : Type} [Field K] [LinearOrder K] [FloorRing K]

/-- The entry of hour `i`, of any day. -/
def Hourly.at (table : Hourly K) (i : ℤ) : K := table.entries.getD (i % 24).toNat 0

/-- **`interpolate_hourly`**. -/
def interpolateHourly (table : Hourly K) (hourOfDay : K) : K :=
  let x := pyMod (hourOfDay - 1 / ((2 : ℕ) : K)) ((24 : ℕ) : K)
  let i := ⌊x⌋
  let frac := x - i
  let a := table.at i
  let b := table.at (i + 1)
  a + frac * (b - a)

/-- `class_group`: the first group that lists the class. -/
def classGroup (cfg : SimCfg K) (rc : RoadClass) : String :=
  ((cfg.classGroups.find? fun g => rc ∈ g.2).map Prod.fst).getD "local"

/-- The hour of the day, as a number. -/
def ClockTime.hours (d : ClockTime) : K :=
  d.hour + (d.minute : K) / ((60 : ℕ) : K) + (d.second : K) / ((3600 : ℕ) : K)

/-- **`multipliers_at`**: by class, the multipliers of speed and of volume. -/
def multipliersAt (cfg : SimCfg K) (departure : ClockTime) : (RoadClass → K) × (RoadClass → K) :=
  (fun rc => interpolateHourly (cfg.profile (classGroup cfg rc)).speedMult departure.hours,
    fun rc => interpolateHourly (cfg.profile (classGroup cfg rc)).volumeMult departure.hours)

/-- **`at_time`**. -/
def snapshotAt {N E T : ℕ} (pack : Costs.Pack N E T K) (cfg : SimCfg K) (departure : ClockTime) :
    Costs.Snapshot E K :=
  atTime pack (multipliersAt cfg departure).1 (multipliersAt cfg departure).2 cfg.baseVphPerLane

/-! ## The lookup -/

omit [LinearOrder K] [FloorRing K] in
theorem Hourly.at_add_day (table : Hourly K) (i n : ℤ) : table.at (i + 24 * n) = table.at i := by
  rw [Hourly.at, Hourly.at, Int.add_mul_emod_self_left]

omit [LinearOrder K] [FloorRing K] in
theorem Hourly.at_mem (table : Hourly K) (i : ℤ) : table.at i ∈ table.entries := by
  have hlt : (i % 24).toNat < table.entries.length := by
    rw [table.length_eq]
    omega
  rw [Hourly.at, List.getD_eq_getElem?_getD, List.getElem?_eq_getElem hlt, Option.getD_some]
  exact List.getElem_mem hlt

variable [IsStrictOrderedRing K]

/-- **The lookup** interpolates between the hours of all days. -/
theorem interpolateHourly_eq (table : Hourly K) (hour : K) :
    interpolateHourly table hour = interpolate table.at (hour - 1 / ((2 : ℕ) : K)) := by
  have hday : ∀ i, table.at (i + 24 * -⌊(hour - 1 / ((2 : ℕ) : K)) / ((24 : ℕ) : K)⌋) =
      table.at i := fun i => table.at_add_day i _
  rw [← interpolate_add hday]
  have harg : hour - 1 / ((2 : ℕ) : K) +
      ((24 * -⌊(hour - 1 / ((2 : ℕ) : K)) / ((24 : ℕ) : K)⌋ : ℤ) : K) =
      pyMod (hour - 1 / ((2 : ℕ) : K)) ((24 : ℕ) : K) := by
    rw [pyMod]
    push_cast
    ring
  rw [harg]
  rfl

/-- What it gives lies between the least and the largest entry. -/
theorem interpolateHourly_mem (table : Hourly K) {lo hi : K}
    (h : ∀ v ∈ table.entries, lo ≤ v ∧ v ≤ hi) (hour : K) :
    lo ≤ interpolateHourly table hour ∧ interpolateHourly table hour ≤ hi := by
  rw [interpolateHourly_eq]
  exact ⟨le_interpolate (fun i => (h _ (table.at_mem i)).1) _,
    interpolate_le (fun i => (h _ (table.at_mem i)).2) _⟩

/-- At half past it is the entry of the hour. -/
theorem interpolateHourly_half (table : Hourly K) (i : ℤ) :
    interpolateHourly table (i + 1 / ((2 : ℕ) : K)) = table.at i := by
  rw [interpolateHourly_eq, add_sub_cancel_right, interpolate_intCast]

/-- A day later it is the same. -/
theorem interpolateHourly_add_day (table : Hourly K) (hour : K) :
    interpolateHourly table (hour + ((24 : ℕ) : K)) = interpolateHourly table hour := by
  have hday : ∀ i, table.at (i + 24) = table.at i := fun i => table.at_add_day i 1
  have hshift := interpolate_add hday (hour - 1 / ((2 : ℕ) : K))
  rw [interpolateHourly_eq, interpolateHourly_eq, ← hshift]
  congr 1
  push_cast
  ring

/-- The entries differ by at most `l` from one hour to the next, the last and the first too. -/
def Hourly.Steps (table : Hourly K) (l : K) : Prop := ∀ i, |table.at (i + 1) - table.at i| ≤ l

/-- The time between two hours of the day, round the clock. -/
def aroundClock (h h' : K) : K := min |h - h'| (((24 : ℕ) : K) - |h - h'|)

/-- **No jump**, at midnight or at any other time. -/
theorem abs_interpolateHourly_sub_le {table : Hourly K} {l : K} (hl : table.Steps l) {h h' : K}
    (hday : |h - h'| ≤ ((24 : ℕ) : K)) :
    |interpolateHourly table h - interpolateHourly table h'| ≤ l * aroundClock h h' := by
  have hsteps : ∀ a b : K, a ≤ b →
      |interpolateHourly table b - interpolateHourly table a| ≤ l * (b - a) := by
    intro a b hab
    rw [interpolateHourly_eq, interpolateHourly_eq]
    refine (abs_interpolate_sub_le hl (sub_le_sub_right hab _)).trans_eq ?_
    ring
  -- the later of the two one way, and the earlier of the next day the other way
  have hordered : ∀ a b : K, a ≤ b → b - a ≤ ((24 : ℕ) : K) →
      |interpolateHourly table b - interpolateHourly table a| ≤
        l * min (b - a) (((24 : ℕ) : K) - (b - a)) := by
    intro a b hab hlt
    rcases le_total (b - a) (((24 : ℕ) : K) - (b - a)) with hmin | hmin
    · rw [min_eq_left hmin]
      exact hsteps a b hab
    · rw [min_eq_right hmin, ← interpolateHourly_add_day table a, abs_sub_comm]
      refine (hsteps b (a + ((24 : ℕ) : K)) (by linarith)).trans_eq ?_
      ring
  rcases le_total h h' with hle | hle
  · have habs : |h - h'| = h' - h := by rw [abs_sub_comm, abs_of_nonneg (sub_nonneg.mpr hle)]
    rw [abs_sub_comm, aroundClock, habs]
    exact hordered h h' hle (habs ▸ hday)
  · have habs : |h - h'| = h - h' := abs_of_nonneg (sub_nonneg.mpr hle)
    rw [aroundClock, habs]
    exact hordered h' h hle (habs ▸ hday)

/-! ## The multipliers of a departure -/

omit [FloorRing K] in
/-- The clock shows less than a day. -/
theorem ClockTime.hours_mem (d : ClockTime) :
    0 ≤ (d.hours : K) ∧ (d.hours : K) < ((24 : ℕ) : K) := by
  have hhour : (d.hour : K) ≤ ((23 : ℕ) : K) := Nat.cast_le.mpr (Nat.le_of_lt_succ d.hour_lt)
  have hminute : (d.minute : K) ≤ ((59 : ℕ) : K) := Nat.cast_le.mpr (Nat.le_of_lt_succ d.minute_lt)
  have hsecond : (d.second : K) ≤ ((59 : ℕ) : K) := Nat.cast_le.mpr (Nat.le_of_lt_succ d.second_lt)
  have hminutes : (d.minute : K) / ((60 : ℕ) : K) ≤ ((59 : ℕ) : K) / ((60 : ℕ) : K) :=
    div_le_div_of_nonneg_right hminute (Nat.cast_nonneg _)
  have hseconds : (d.second : K) / ((3600 : ℕ) : K) ≤ ((59 : ℕ) : K) / ((3600 : ℕ) : K) :=
    div_le_div_of_nonneg_right hsecond (Nat.cast_nonneg _)
  refine ⟨by unfold ClockTime.hours; positivity, ?_⟩
  have hday : ((23 : ℕ) : K) + ((59 : ℕ) : K) / ((60 : ℕ) : K) + ((59 : ℕ) : K) / ((3600 : ℕ) : K) <
      ((24 : ℕ) : K) := by
    norm_num
  exact (add_le_add (add_le_add hhour hminutes) hseconds).trans_lt hday

omit [FloorRing K] in
/-- No two times of day are more than a day apart. -/
theorem ClockTime.abs_hours_sub_le (d d' : ClockTime) :
    |(d.hours : K) - d'.hours| ≤ ((24 : ℕ) : K) := by
  have h := ClockTime.hours_mem (K := K) d
  have h' := ClockTime.hours_mem (K := K) d'
  rw [abs_le]
  constructor <;> linarith

/-- What a table says of the time of day: within its bounds, its entry at half past, and no jump. -/
structure Follows (table : Hourly K) (m : ClockTime → K) : Prop where
  bounds : ∀ lo hi, (∀ v ∈ table.entries, lo ≤ v ∧ v ≤ hi) → ∀ d, lo ≤ m d ∧ m d ≤ hi
  half : ∀ d : ClockTime, d.minute = 30 → d.second = 0 → m d = table.at d.hour
  noJump : ∀ l, table.Steps l → ∀ d d' : ClockTime,
    |m d - m d'| ≤ l * aroundClock (d.hours : K) d'.hours

theorem follows_interpolateHourly (table : Hourly K) :
    Follows table fun d => interpolateHourly table d.hours where
  bounds _ _ h d := interpolateHourly_mem table h d.hours
  half d hminute hsecond := by
    rw [← interpolateHourly_half table (d.hour : ℤ), ClockTime.hours, hminute, hsecond]
    congr 1
    norm_num
  noJump _ hl d d' := abs_interpolateHourly_sub_le hl (d.abs_hours_sub_le d')

/-- **The traffic follows its tables**: the multipliers of speed and of volume, for every class. -/
theorem multipliers_follow_tables (cfg : SimCfg K) (rc : RoadClass) :
    Follows (cfg.profile (classGroup cfg rc)).speedMult (fun d => (multipliersAt cfg d).1 rc) ∧
      Follows (cfg.profile (classGroup cfg rc)).volumeMult fun d => (multipliersAt cfg d).2 rc :=
  ⟨follows_interpolateHourly _, follows_interpolateHourly _⟩

/-- The multiplier of speed lies within its table. -/
theorem speedMult_mem {cfg : SimCfg K} {rc : RoadClass}
    (h : ∀ v ∈ (cfg.profile (classGroup cfg rc)).speedMult.entries, 0 < v ∧ v ≤ 1)
    (d : ClockTime) : 0 < (multipliersAt cfg d).1 rc ∧ (multipliersAt cfg d).1 rc ≤ 1 := by
  have heq : (multipliersAt cfg d).1 rc = _ :=
    interpolateHourly_eq (cfg.profile (classGroup cfg rc)).speedMult d.hours
  rw [heq]
  exact ⟨lt_interpolate (fun i => (h _ (Hourly.at_mem _ i)).1) _,
    interpolate_le (fun i => (h _ (Hourly.at_mem _ i)).2) _⟩

end

/-! ## The tables of `config.toml` -/

/-- A table from hundredths. -/
def hundredths (l : List ℕ) (h : l.length = 24) : Hourly ℚ where
  entries := l.map fun n : ℕ => ((n : ℚ) / 100 : ℚ)
  length_eq := by rw [List.length_map, h]

/-- `[sim]`. -/
def shippedSim : SimCfg ℚ where
  classGroups :=
    [("arterial", [.motorway, .motorwayLink, .trunk, .trunkLink, .primary, .primaryLink]),
      ("collector", [.secondary, .secondaryLink, .tertiary, .tertiaryLink]),
      ("local", [.residential, .unclassified, .livingStreet, .service])]
  profile group := match group with
    | "arterial" =>
      ⟨hundredths [100, 100, 100, 100, 100, 95, 80, 60, 55, 70, 85, 85, 80, 80,
          75, 65, 60, 55, 60, 75, 90, 100, 100, 100] rfl,
        hundredths [10, 5, 5, 5, 10, 25, 55, 85, 100, 80, 60, 60, 65, 65,
          70, 85, 95, 100, 90, 60, 40, 30, 20, 15] rfl⟩
    | "collector" =>
      ⟨hundredths [100, 100, 100, 100, 100, 100, 90, 75, 70, 80, 90, 90, 85, 85,
          85, 80, 75, 70, 75, 85, 95, 100, 100, 100] rfl,
        hundredths [10, 5, 5, 5, 10, 20, 45, 75, 90, 70, 55, 55, 60, 60,
          65, 75, 85, 90, 80, 55, 35, 25, 20, 15] rfl⟩
    | _ =>
      ⟨hundredths [100, 100, 100, 100, 100, 100, 95, 90, 85, 90, 95, 95, 95, 95,
          95, 90, 85, 85, 90, 95, 100, 100, 100, 100] rfl,
        hundredths [10, 5, 5, 5, 10, 20, 40, 70, 80, 60, 50, 50, 55, 55,
          60, 70, 80, 85, 75, 50, 35, 25, 20, 15] rfl⟩
  baseVphPerLane rc := match rc with
    | .motorway => 900
    | .motorwayLink => 500
    | .trunk => 700
    | .trunkLink => 400
    | .primary => 600
    | .primaryLink => 350
    | .secondary => 450
    | .secondaryLink => 300
    | .tertiary => 300
    | .tertiaryLink => 200
    | .residential => 100
    | .unclassified => 80
    | .livingStreet => 40
    | .service => 30

theorem shippedSim_speedMult (group : String) :
    ∀ v ∈ (shippedSim.profile group).speedMult.entries, 0 < v ∧ v ≤ 1 := by
  unfold shippedSim
  simp only
  split <;> decide +kernel

/-- The speed on an arterial road. -/
theorem multipliers_follow_tables_shipped :
    Follows (shippedSim.profile "arterial").speedMult
      fun d => (multipliersAt shippedSim d).1 .primary :=
  (multipliers_follow_tables shippedSim .primary).1

end RoutePlanner.Sim
