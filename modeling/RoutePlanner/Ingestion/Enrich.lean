import Mathlib.Algebra.Order.Field.Basic
import RoutePlanner.Api.ClientKey
import RoutePlanner.Costs.Pack
import RoutePlanner.Ingestion.Harvest

/-!
# `ingestion/enrich.py`: what tags say of an edge

Model of the tag parsers and of the defaults behind them. `Unicode` is what they use of Python's
`str`. A tag that is no list is a `str` or a `bool`; in a number's place a `bool` is `1` or `0`.

* `effectiveSpeedKph_pos`, `effectiveLanes_pos`: whatever the tags, an edge has a positive speed
  and a positive number of lanes.
* `exists_roadClass`: a tag that is no empty list has a class.
* `roadClassFromHighway_min`: of several classes the most major one is kept.
-/

namespace RoutePlanner.Ingestion

open RoutePlanner.Costs (RoadClass roadClassRank)

/-- `str.lower`, and the value of the digits that `\d` and `float` know. -/
structure Unicode where
  lower : List Char → List Char
  decimal : Char → Option ℕ

/-! ## The code -/

/-- `RoadClass[name]`. -/
def RoadClass.ofName (name : String) : Option RoadClass :=
  match name with
  | "motorway" => some .motorway
  | "trunk" => some .trunk
  | "primary" => some .primary
  | "secondary" => some .secondary
  | "tertiary" => some .tertiary
  | "residential" => some .residential
  | "unclassified" => some .unclassified
  | "service" => some .service
  | "living_street" => some .livingStreet
  | "motorway_link" => some .motorwayLink
  | "trunk_link" => some .trunkLink
  | "primary_link" => some .primaryLink
  | "secondary_link" => some .secondaryLink
  | "tertiary_link" => some .tertiaryLink
  | _ => none

/-- `_HIGHWAY_ALIASES.get(name, name)`. -/
def highwayAlias (name : String) : String :=
  if name = "road" ∨ name = "busway" then "unclassified" else name

/-- `road_class_from_highway` of one value. -/
def roadClassOf (value : Scalar) : RoadClass :=
  (RoadClass.ofName (highwayAlias value.toText)).getD .unclassified

/-- `min(classes, key=...)`: the first of those with the lowest rank. -/
def mostMajor (first : RoadClass) (rest : List RoadClass) : RoadClass :=
  rest.foldl (fun a b => if roadClassRank b < roadClassRank a then b else a) first

/-- `ValueError`, of `min` without a value. -/
inductive ValueError where
  | raised
  deriving DecidableEq

/-- **`road_class_from_highway`**. -/
def roadClassFromHighway (value : TagValue) : Except ValueError RoadClass :=
  match value with
  | .one value => .ok (roadClassOf value)
  | .many [] => .error .raised
  | .many (value :: values) => .ok (mostMajor (roadClassOf value) (values.map roadClassOf))

/-- `is_oneway`. -/
def isOneway (value : Option TagValue) : Bool :=
  let one := fun value : Scalar => match value with
    | .flag b => b
    | .text s => decide (s ∈ ["yes", "true", "1", "-1", "reverse"])
  match value with
  | none => false
  | some (.one value) => one value
  | some (.many values) => values.any one

/-- `infer_median`. -/
def inferMedian (roadClass : RoadClass) (oneway : Bool) : Bool :=
  oneway && decide (roadClassRank roadClass ≤ roadClassRank .secondary)

section Numbers

variable (u : Unicode)

/-- The digits at the head of a text, by value, and the rest. -/
def takeDigits : List Char → List ℕ × List Char
  | [] => ([], [])
  | c :: s =>
    match u.decimal c with
    | some d => (d :: (takeDigits s).1, (takeDigits s).2)
    | none => ([], c :: s)

/-- `_NUM_RE` at the head of a text: digits, and a fraction if digits follow the point. -/
def numberHere (s : List Char) : List ℕ × List ℕ :=
  let (int, rest) := takeDigits u s
  match rest with
  | '.' :: rest => (int, (takeDigits u rest).1)
  | _ => (int, [])

/-- `_NUM_RE.search`. -/
def searchNumber : List Char → Option (List ℕ × List ℕ)
  | [] => none
  | c :: s => if (u.decimal c).isSome then some (numberHere u (c :: s)) else searchNumber s

variable {K : Type} [Field K] [LinearOrder K]

/-- The number that some decimal digits write. -/
def ofDigits (digits : List ℕ) : ℕ := digits.foldl (fun n d => 10 * n + d) 0

/-- `float` of a match. -/
def floatOf (number : List ℕ × List ℕ) : K :=
  ofDigits number.1 + (ofDigits number.2 : K) / ((10 : ℕ) : K) ^ number.2.length

/-- `_MPH_TO_KPH`. -/
def mphToKph : K := ((1609344 : ℕ) : K) / ((1000000 : ℕ) : K)

/-- `parse_maxspeed_kph` of one value. -/
def maxspeedOf (value : Scalar) : Option K :=
  match value with
  | .flag b => some (if b then 1 else 0)
  | .text s =>
    let s := u.lower (Api.strip s.toList)
    (searchNumber u s).map fun number =>
      if "mph".toList <:+: s then floatOf number * mphToKph else floatOf number

/-- `parse_lanes_per_direction` of one value. -/
def lanesOf (oneway : Bool) (value : Scalar) : Option K :=
  (searchNumber u value.toText.toList).map fun number =>
    let lanes : K := floatOf number
    if oneway then lanes else max (lanes / ((2 : ℕ) : K)) 1

/-- What a parser makes of a tag: of a list the largest that it can read. -/
def parseTag (parse : Scalar → Option K) (value : Option TagValue) : Option K :=
  match value with
  | none => none
  | some (.one value) => parse value
  | some (.many values) => (values.filterMap parse).max?

/-- **`parse_maxspeed_kph`**. -/
def parseMaxspeedKph (value : Option TagValue) : Option K := parseTag (maxspeedOf u) value

/-- **`parse_lanes_per_direction`**. -/
def parseLanesPerDirection (value : Option TagValue) (oneway : Bool) : Option K :=
  parseTag (lanesOf u oneway) value

/-- The tables `[defaults]` of the configuration. -/
structure Defaults (K : Type) [Field K] [LinearOrder K] where
  speedKphByClass : RoadClass → K
  lanesByClass : RoadClass → K
  speed_pos : ∀ rc, 0 < speedKphByClass rc
  lanes_pos : ∀ rc, 0 < lanesByClass rc

/-- `parsed` if it is a positive number, and the default otherwise. -/
def positiveOr (parsed : Option K) (default : K) : K :=
  match parsed with
  | some x => if 0 < x then x else default
  | none => default

variable (d : Defaults K) (tags : Tags) (roadClass : RoadClass)

/-- **`effective_speed_kph`**. -/
def effectiveSpeedKph : K :=
  positiveOr (parseMaxspeedKph u (tags "maxspeed")) (d.speedKphByClass roadClass)

/-- **`effective_lanes`**. -/
def effectiveLanes (oneway : Bool) : K :=
  positiveOr (parseLanesPerDirection u (tags "lanes") oneway) (d.lanesByClass roadClass)

/-! ## What the parsers guarantee -/

theorem positiveOr_pos {parsed : Option K} {default : K} (h : 0 < default) :
    0 < positiveOr parsed default := by
  unfold positiveOr
  cases parsed with
  | none => exact h
  | some x =>
    simp only
    split
    · assumption
    · exact h

theorem effectiveSpeedKph_pos : 0 < effectiveSpeedKph u d tags roadClass :=
  positiveOr_pos (d.speed_pos roadClass)

theorem effectiveLanes_pos (oneway : Bool) : 0 < effectiveLanes u d tags roadClass oneway :=
  positiveOr_pos (d.lanes_pos roadClass)

end Numbers

theorem mostMajor_le (first : RoadClass) (rest : List RoadClass) :
    ∀ rc ∈ first :: rest, roadClassRank (mostMajor first rest) ≤ roadClassRank rc := by
  unfold mostMajor
  induction rest generalizing first with
  | nil =>
    intro rc hrc
    rw [List.mem_singleton.mp hrc]
    exact Nat.le_refl _
  | cons b rest ih =>
    intro rc hrc
    have hstep := ih (if roadClassRank b < roadClassRank first then b else first)
    have hhead := hstep _ List.mem_cons_self
    rw [List.foldl_cons]
    rcases List.mem_cons.mp hrc with rfl | hrc
    · refine hhead.trans ?_
      split
      · exact Nat.le_of_lt ‹_›
      · exact Nat.le_refl _
    · rcases List.mem_cons.mp hrc with rfl | hrc
      · refine hhead.trans ?_
        split
        · exact Nat.le_refl _
        · exact Nat.le_of_not_lt ‹_›
      · exact hstep rc (List.mem_cons_of_mem _ hrc)

/-- **The most major class is kept** of the ways that an edge was merged from. -/
theorem roadClassFromHighway_min {values : List Scalar} {rc : RoadClass}
    (h : roadClassFromHighway (.many values) = .ok rc) {value : Scalar} (hmem : value ∈ values) :
    roadClassRank rc ≤ roadClassRank (roadClassOf value) := by
  cases values with
  | nil => cases h
  | cons first rest =>
    rw [← Except.ok.inj h]
    refine mostMajor_le (roadClassOf first) (rest.map roadClassOf) _ ?_
    rw [← List.map_cons]
    exact List.mem_map_of_mem hmem

/-- A tag that is no empty list has a class. -/
theorem exists_roadClass {value : TagValue} (h : value ≠ .many []) :
    ∃ rc, roadClassFromHighway value = .ok rc := by
  cases value with
  | one value => exact ⟨_, rfl⟩
  | many values =>
    cases values with
    | nil => exact absurd rfl h
    | cons value values => exact ⟨_, rfl⟩

/-- The tables of `config.toml`. -/
def shippedDefaults : Defaults ℚ where
  speedKphByClass rc := match rc with
    | .motorway => 105
    | .motorwayLink => 65
    | .trunk => 80
    | .trunkLink => 55
    | .primary => 56
    | .primaryLink => 40
    | .secondary => 48
    | .secondaryLink => 40
    | .tertiary => 40
    | .tertiaryLink => 35
    | .residential => 40
    | .unclassified => 40
    | .livingStreet => 15
    | .service => 25
  lanesByClass rc := match rc with
    | .motorway => 3
    | .motorwayLink => 1
    | .trunk => 2
    | .trunkLink => 1
    | .primary => 2
    | .primaryLink => 1
    | .secondary => 2
    | .secondaryLink => 1
    | .tertiary => 1
    | .tertiaryLink => 1
    | .residential => 1
    | .unclassified => 1
    | .livingStreet => 1
    | .service => 1
  speed_pos rc := by cases rc <;> norm_num
  lanes_pos rc := by cases rc <;> norm_num

/-- The tables of ASCII. -/
def asciiText : Unicode where
  lower := List.map Char.toLower
  decimal c := if c.isDigit then some (c.toNat - 48) else none

/-- A speed in miles, of two that were merged, beside a word. -/
example : parseMaxspeedKph (K := ℚ) asciiText
    (some (.many [.text "walk", .text " 25.5 mph"])) = some (51 / 2 * (1609344 / 1000000)) := by
  decide +kernel

end RoutePlanner.Ingestion
