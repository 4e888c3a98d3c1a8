import RoutePlanner.Graph.NdArray
import RoutePlanner.Lib.Assoc

/-!
# `pyref/graph.py`: the packs and their files

A `GraphPack` is an array for every field, a free-form `meta` dictionary, and a cache for
`turn_in_edge` that the first use fills. `write` puts every array into a file of its own and a
`manifest.json` beside them; `load` reads them by the manifest's array table.

* The manifest is its JSON value: `json.loads` inverts `json.dumps`.
* `meta` is merged into the manifest last, so an entry of its own replaces a computed one, and
  `load` keeps every entry of the manifest but `arrays` and `enums` in it.
* A `Host` is what numpy and the JSON text answer beyond that.
-/

namespace RoutePlanner.Graph

open RoutePlanner.Lib

/-! ## JSON -/

/-- A JSON value. A number is its value; `special` is a `NaN` or an infinity. -/
inductive Json where
  | null
  | bool (b : Bool)
  | num (q : ℚ)
  | special (text : String)
  | str (s : String)
  | arr (items : List Json)
  | obj (fields : List (String × Json))

namespace Json

/-- The number that a value equals in a comparison. -/
def number? : Json → Option ℚ
  | bool b => some (if b then 1 else 0)
  | num q => some q
  | _ => none

/-- `value[key]`. -/
def item (value : Json) (key : String) : Except Error Json :=
  match value with
  | obj fields =>
    match lookup key fields with
    | some v => .ok v
    | none => .error (.keyError key)
  | _ => .error .typeError

/-- `value[0]`. -/
def first (value : Json) : Except Error Json :=
  match value with
  | arr (v :: _) => .ok v
  | arr [] => .error .indexError
  | _ => .error .typeError

/-- A count. -/
def count (n : ℕ) : Json := num n

end Json

/-! ## Packs -/

/-- `PACK_FORMAT_VERSION`. -/
def packFormatVersion : ℕ := 2

/-- The array fields, `array_fields()`. -/
inductive Field where
  | nodeLat | nodeLon | nodeOsmid | nodeControl
  | nodeOutPtr | edgeTail | edgeHead | edgeLengthM | edgeSpeedMps | edgeLanes | edgeMedian
  | edgeRoadClass | edgeReverse | edgeBearingIn | edgeBearingOut | edgeApproachControl
  | edgeMustStop | edgeControlConfidence | edgeOsmWay
  | edgeGeomPtr | geomLat | geomLon
  | turnPtr | turnOutEdge | turnManeuver | turnAngleDeg | turnAllowed
  deriving DecidableEq

namespace Field

/-- `array_fields()`, in the order of the class. -/
def all : List Field :=
  [nodeLat, nodeLon, nodeOsmid, nodeControl, nodeOutPtr, edgeTail, edgeHead, edgeLengthM,
    edgeSpeedMps, edgeLanes, edgeMedian, edgeRoadClass, edgeReverse, edgeBearingIn,
    edgeBearingOut, edgeApproachControl, edgeMustStop, edgeControlConfidence, edgeOsmWay,
    edgeGeomPtr, geomLat, geomLon, turnPtr, turnOutEdge, turnManeuver, turnAngleDeg, turnAllowed]

/-- The name of a field, which is its file's stem. -/
def name : Field → String
  | nodeLat => "node_lat"
  | nodeLon => "node_lon"
  | nodeOsmid => "node_osmid"
  | nodeControl => "node_control"
  | nodeOutPtr => "node_out_ptr"
  | edgeTail => "edge_tail"
  | edgeHead => "edge_head"
  | edgeLengthM => "edge_length_m"
  | edgeSpeedMps => "edge_speed_mps"
  | edgeLanes => "edge_lanes"
  | edgeMedian => "edge_median"
  | edgeRoadClass => "edge_road_class"
  | edgeReverse => "edge_reverse"
  | edgeBearingIn => "edge_bearing_in"
  | edgeBearingOut => "edge_bearing_out"
  | edgeApproachControl => "edge_approach_control"
  | edgeMustStop => "edge_must_stop"
  | edgeControlConfidence => "edge_control_confidence"
  | edgeOsmWay => "edge_osm_way"
  | edgeGeomPtr => "edge_geom_ptr"
  | geomLat => "geom_lat"
  | geomLon => "geom_lon"
  | turnPtr => "turn_ptr"
  | turnOutEdge => "turn_out_edge"
  | turnManeuver => "turn_maneuver"
  | turnAngleDeg => "turn_angle_deg"
  | turnAllowed => "turn_allowed"

theorem mem_all (f : Field) : f ∈ all := by cases f <;> decide

end Field

/-- `GraphPack`; `turnInEdge` is the cache `_turn_in_edge`. -/
structure GraphPack where
  arrays : Field → NdArray
  metadata : Assoc String Json
  turnInEdge : Option (List ℤ)

namespace GraphPack

variable (pack : GraphPack)

/-- `num_nodes`. -/
def numNodes : ℕ := (pack.arrays .nodeLat).len

/-- `num_edges`. -/
def numEdges : ℕ := (pack.arrays .edgeHead).len

/-- `num_turns`. -/
def numTurns : ℕ := (pack.arrays .turnOutEdge).len

/-- `turn_in_edge`: the cache, or what is computed to fill it. -/
def getTurnInEdge : Except Error (List ℤ) :=
  match pack.turnInEdge with
  | some l => .ok l
  | none => do
    let counts ← (pack.arrays .turnPtr).diff
    repeatRange pack.numEdges counts

/-- `arr[-1] == n`, asserted. -/
def checkLast (f : Field) (n : ℕ) : Except Error Unit := do
  let x ← (pack.arrays f).last
  check (x.eqNat n = true) ""

/-- `validate` up to its last expression: `edge_tail[turn_out_edge]`. -/
def checkArrays : Except Error (List Scalar) := do
  let n := pack.numNodes
  let e := pack.numEdges
  let t := pack.numTurns
  check ((pack.arrays .nodeOutPtr).len = n + 1) ""
  check ((pack.arrays .turnPtr).len = e + 1) ""
  check ((pack.arrays .edgeGeomPtr).len = e + 1) ""
  pack.checkLast .nodeOutPtr e
  pack.checkLast .turnPtr t
  pack.checkLast .edgeGeomPtr (pack.arrays .geomLat).len
  check ((pack.arrays .geomLat).len = (pack.arrays .geomLon).len) ""
  check (e < 2 ^ 31 ∧ t < 2 ^ 31) ""
  Field.all.forM fun f => check ((pack.arrays f).dtype.ext.isSome)
    (f.name ++ ": unexpected dtype " ++ (pack.arrays f).dtype.str ++
      " — use explicit f64/i64/i32/u8")
  check (t ≠ 0 → (pack.arrays .turnOutEdge).items.all (fun x => x.inRange e) = true) ""
  let outEdges ← (pack.arrays .turnOutEdge).indices
  (pack.arrays .edgeTail).take outEdges

/-- Every turn leaves from the head of its in-edge. -/
def checkTurns (tails : List Scalar) (inEdges : List ℤ) : Except Error Unit := do
  let heads ← (pack.arrays .edgeHead).take inEdges
  let ok ← allEqual tails heads
  check (ok = true) "turn table topology mismatch"

/-- `validate`, with the pack it leaves: its cache is filled. -/
def validate : Except Error GraphPack := do
  let tails ← pack.checkArrays
  let inEdges ← pack.getTurnInEdge
  pack.checkTurns tails inEdges
  return { pack with turnInEdge := some inEdges }

end GraphPack

/-! ## Files -/

/-- What a file holds. -/
inductive Content where
  | bytes (bytes : List UInt8)
  | json (manifest : Assoc String Json)

/-- A pack directory. -/
abbrev Dir := String → Option Content

/-- What numpy and the JSON text answer. -/
structure Host where
  /-- `np.dtype(value)`. -/
  dtype : Json → Option Dtype
  /-- A dtype is found by its own `str`. -/
  dtype_str : ∀ d, d.ext.isSome → dtype (.str d.str) = some d
  /-- The bytes of a JSON text. -/
  text : Assoc String Json → List UInt8
  /-- `json.loads` of other bytes. -/
  loads : List UInt8 → Option (Assoc String Json)

/-- The name of an array's file. -/
def fileName (f : Field) (ext : String) : String := f.name ++ "." ++ ext

/-- An enum's table. -/
def enumTable (values : List (String × ℕ)) : Json :=
  .obj (values.map fun v => (v.1, Json.count v.2))

/-- `manifest["enums"]`. -/
def enums : Json :=
  .obj [
    ("control", enumTable [("NONE", 0), ("STOP_2WAY", 1), ("STOP_4WAY", 2),
      ("SIGNAL_PERMISSIVE", 3), ("SIGNAL_PROTECTED", 4), ("ROUNDABOUT", 5), ("YIELD", 6)]),
    ("control_confidence", enumTable [("UNKNOWN", 0), ("INFERRED", 1), ("OBSERVED", 2)]),
    ("maneuver", enumTable [("STRAIGHT", 0), ("LEFT", 1), ("RIGHT", 2), ("UTURN", 3)]),
    ("road_class", enumTable [("motorway", 0), ("trunk", 1), ("primary", 2), ("secondary", 3),
      ("tertiary", 4), ("residential", 5), ("unclassified", 6), ("service", 7),
      ("living_street", 8), ("motorway_link", 9), ("trunk_link", 10), ("primary_link", 11),
      ("secondary_link", 12), ("tertiary_link", 13)])]

namespace GraphPack

variable (pack : GraphPack)

/-- `arrays_manifest[name]`. -/
def arraySpec (f : Field) (ext : String) : Json :=
  .obj [("file", .str (fileName f ext)), ("dtype", .str (pack.arrays f).dtype.str),
    ("shape", .arr [Json.count (pack.arrays f).len])]

/-- One array: its file, and its entry in the table. -/
def writeArray (out : Dir × List (String × Json)) (f : Field) :
    Except Error (Dir × List (String × Json)) :=
  match (pack.arrays f).dtype.ext with
  | none => .error (.keyError (pack.arrays f).dtype.str)
  | some ext =>
    .ok (Function.update out.1 (fileName f ext) (some (.bytes (pack.arrays f).tofile)),
      store f.name (pack.arraySpec f ext) out.2)

/-- The loop over the arrays. -/
def writeAll (dir : Dir) : Except Error (Dir × List (String × Json)) :=
  Field.all.foldlM pack.writeArray (dir, [])

/-- `manifest["counts"]`. -/
def counts : Json :=
  .obj [("num_nodes", Json.count pack.numNodes), ("num_edges", Json.count pack.numEdges),
    ("num_turns", Json.count pack.numTurns),
    ("num_geom_points", Json.count (pack.arrays .geomLat).len)]

/-- The computed entries of the manifest. -/
def computed (arrays : List (String × Json)) : Assoc String Json :=
  ((((Assoc.empty.put "format_version" (Json.count packFormatVersion)).put
    "endianness" (.str "little")).put "counts" pack.counts).put "arrays" (.obj arrays)).put
      "enums" enums

/-- The manifest: `**self.meta` comes last. -/
def manifest (arrays : List (String × Json)) : Assoc String Json :=
  pack.metadata.entries.foldl (fun m e => m.put e.1 e.2) (pack.computed arrays)

/-- `write`: the pack, whose cache `validate` fills, and the directory. -/
def write (dir : Dir) : Except Error (GraphPack × Dir) := do
  let pack' ← pack.validate
  let (dir, arrays) ← pack.writeAll dir
  return (pack', Function.update dir "manifest.json" (some (.json (pack.manifest arrays))))

end GraphPack

section Load

variable (host : Host)

/-- The manifest that is read. -/
def readManifest (dir : Dir) : Except Error (Assoc String Json) :=
  match dir "manifest.json" with
  | none => .error (.fileNotFound "manifest.json")
  | some (.json m) => .ok m
  | some (.bytes b) =>
    match host.loads b with
    | some m => .ok m
    | none => .error (.valueError "manifest.json")

/-- The bytes of a file. -/
def readBytes (dir : Dir) (file : String) : Except Error (List UInt8) :=
  match dir file with
  | none => .error (.fileNotFound file)
  | some (.bytes b) => .ok b
  | some (.json m) => .ok (host.text m)

/-- `manifest[key]`. -/
def entry (m : Assoc String Json) (key : String) : Except Error Json :=
  match m.get key with
  | some v => .ok v
  | none => .error (.keyError key)

/-- A path below the directory. -/
def asPath : Json → Except Error String
  | .str s => .ok s
  | _ => .error .typeError

/-- `np.dtype(value)`, of a type whose items have bytes. -/
def asDtype (value : Json) : Except Error Dtype :=
  match host.dtype value with
  | some d => if 0 < d.itemsize then .ok d else .error (.valueError "itemsize cannot be zero")
  | none => .error .typeError

/-- One array, read by its entry in the table. -/
def loadArray (dir : Dir) (m : Assoc String Json) (f : Field) : Except Error NdArray := do
  let table ← entry m "arrays"
  let spec ← table.item f.name
  let file ← spec.item "file" >>= asPath
  let dtype ← spec.item "dtype" >>= asDtype host
  let bytes ← readBytes host dir file
  let arr := NdArray.fromfile dtype bytes
  let shape ← spec.item "shape"
  let n ← shape.first
  if n.number? = some (arr.len : ℚ) then return arr
  else throw (.valueError (f.name ++ ": expected items"))

/-- `kwargs[name] = arr`. -/
def loadField (dir : Dir) (m : Assoc String Json) (kwargs : Assoc Field NdArray) (f : Field) :
    Except Error (Assoc Field NdArray) := do
  let arr ← loadArray host dir m f
  return kwargs.put f arr

/-- The entries that `load` keeps in `meta`. -/
def keptMeta (m : Assoc String Json) : Assoc String Json where
  entries := m.entries.filter fun e => e.1 ≠ "arrays" ∧ e.1 ≠ "enums"
  nodup := (m.nodup.sublist (List.filter_sublist.map Prod.fst))

/-- `GraphPack.load`. -/
def load (dir : Dir) : Except Error GraphPack := do
  let m ← readManifest host dir
  let version ← entry m "format_version"
  if version.number? ≠ some (packFormatVersion : ℚ) then throw (.valueError "pack format")
  let kwargs ← Field.all.foldlM (loadField host dir m) Assoc.empty
  -- every field has its array
  let arrays := fun f => (kwargs.get f).getD NdArray.empty
  GraphPack.validate ⟨arrays, keptMeta m, none⟩

end Load

end RoutePlanner.Graph
