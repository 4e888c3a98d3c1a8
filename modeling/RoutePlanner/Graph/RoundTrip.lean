import RoutePlanner.Graph.Pack
import RoutePlanner.Lib.Run

/-!
# Writing and loading a pack

`write` merges `meta` into the manifest last. A pack that was loaded has the counts and the format
version of its file in `meta`, so they are written again as they were, whatever arrays the pack has
by then.

* `Describes`: the manifest's counts, version and array table are those of the arrays.
* `write_ok`, `load_ok`: what a valid pack is written as, and what is read from it.
* `roundTrips_iff`: the round trip is right just when `validate` passes with the cache that the
  pack has, and `meta` has no other counts, version or array table.
* `Sound.cycles`: a pack that is written, loaded and not changed makes the trip any number of times.
-/

namespace RoutePlanner.Graph

open RoutePlanner.Lib

/-! ## What a manifest says -/

/-- A format version. -/
def VersionDescribes (v : Json) : Prop := v.number? = some (packFormatVersion : ℚ)

/-- The number under `key`. -/
def numberAt (fields : List (String × Json)) (key : String) : Option ℚ :=
  (lookup key fields).bind Json.number?

/-- Counts, of `arrays`. -/
def CountsDescribe (arrays : Field → NdArray) (v : Json) : Prop :=
  ∃ fields, v = .obj fields ∧ numberAt fields "num_nodes" = some ((arrays .nodeLat).len : ℚ) ∧
    numberAt fields "num_edges" = some ((arrays .edgeHead).len : ℚ) ∧
    numberAt fields "num_turns" = some ((arrays .turnOutEdge).len : ℚ) ∧
    numberAt fields "num_geom_points" = some ((arrays .geomLat).len : ℚ)

/-- The entry of one array: its file, its dtype and its shape. -/
def SpecDescribes (arrays : Field → NdArray) (f : Field) (v : Json) : Prop :=
  ∃ fields ext n, v = .obj fields ∧ (arrays f).dtype.ext = some ext ∧
    lookup "file" fields = some (.str (fileName f ext)) ∧
    lookup "dtype" fields = some (.str (arrays f).dtype.str) ∧
    lookup "shape" fields = some (.arr [n]) ∧ n.number? = some ((arrays f).len : ℚ)

/-- An array table, of `arrays`. -/
def TableDescribes (arrays : Field → NdArray) (v : Json) : Prop :=
  ∃ fields, v = .obj fields ∧
    ∀ f : Field, ∃ spec, lookup f.name fields = some spec ∧ SpecDescribes arrays f spec

/-- **The manifest describes the arrays.** -/
structure Describes (m : Assoc String Json) (arrays : Field → NdArray) : Prop where
  version : ∃ v, m.get "format_version" = some v ∧ VersionDescribes v
  counts : ∃ v, m.get "counts" = some v ∧ CountsDescribe arrays v
  table : ∃ v, m.get "arrays" = some v ∧ TableDescribes arrays v

/-- No entry of `meta` says anything else of the arrays. -/
structure MetaAgrees (pack : GraphPack) : Prop where
  version : ∀ v, pack.metadata.get "format_version" = some v → VersionDescribes v
  counts : ∀ v, pack.metadata.get "counts" = some v → CountsDescribe pack.arrays v
  table : ∀ v, pack.metadata.get "arrays" = some v → TableDescribes pack.arrays v

/-- The arrays pass `validate`, with nothing cached. -/
def ValidArrays (arrays : Field → NdArray) : Prop :=
  ∃ pack, GraphPack.validate ⟨arrays, Assoc.empty, none⟩ = .ok pack

/-- **The round trip is right**: the pack is written, its manifest describes the arrays written, and
what is loaded has the same arrays. -/
def RoundTrips (host : Host) (pack : GraphPack) (dir : Dir) : Prop :=
  ∃ pack' dir' m q, pack.write dir = .ok (pack', dir') ∧
    dir' "manifest.json" = some (.json m) ∧ Describes m pack.arrays ∧
      load host dir' = .ok q ∧ q.arrays = pack.arrays

/-! ## Names -/

theorem Field.name_injective {f g : Field} (h : f.name = g.name) : f = g := by
  have hfind : ∀ f : Field, Field.all.find? (fun g => g.name == f.name) = some f := by
    intro f
    cases f <;> decide
  have hf := hfind f
  rw [h, hfind g] at hf
  exact (Option.some.inj hf).symm

theorem stem_fileName (f : Field) (ext : String) :
    (fileName f ext).toList.takeWhile (· ≠ '.') = f.name.toList := by
  have hdot : '.' ∉ f.name.toList := by cases f <;> decide
  unfold fileName
  rw [String.toList_append, String.toList_append, List.append_assoc,
    List.takeWhile_append_of_pos fun c hc => by simpa using ne_of_mem_of_not_mem hc hdot]
  simp

/-- No two arrays have one file. -/
theorem fileName_injective {f g : Field} {ext ext' : String}
    (h : fileName f ext = fileName g ext') : f = g := by
  have hstem := stem_fileName f ext
  rw [h, stem_fileName g ext'] at hstem
  exact Field.name_injective (String.toList_inj.mp hstem.symm)

theorem fileName_ne_manifest (f : Field) (ext : String) : fileName f ext ≠ "manifest.json" := by
  intro h
  have hstem := stem_fileName f ext
  rw [h] at hstem
  cases f <;> exact absurd hstem (by decide)

/-! ## `validate` -/

section Validate

variable {pack : GraphPack}

/-- **What `validate` looks at**: the arrays and the cache. -/
theorem validate_eq_ok {pack' : GraphPack} : pack.validate = .ok pack' ↔
    ∃ tails inEdges, pack.checkArrays = .ok tails ∧ pack.getTurnInEdge = .ok inEdges ∧
      pack.checkTurns tails inEdges = .ok () ∧
        pack' = { pack with turnInEdge := some inEdges } := by
  unfold GraphPack.validate
  constructor
  · intro h
    obtain ⟨tails, htails, h⟩ := bind_ok h
    obtain ⟨inEdges, hin, h⟩ := bind_ok h
    obtain ⟨⟨⟩, hturns, h⟩ := bind_ok h
    exact ⟨tails, inEdges, htails, hin, hturns, (Except.ok.inj h).symm⟩
  · rintro ⟨tails, inEdges, htails, hin, hturns, rfl⟩
    rw [htails, ok_bind, hin, ok_bind, hturns, ok_bind]
    rfl

/-- `meta` makes no difference, and a cache that `validate` filled makes none either. -/
theorem validate_again {arrays : Field → NdArray} {d : Assoc String Json}
    {cache : Option (List ℤ)} {q : GraphPack} (d' : Assoc String Json)
    (h : GraphPack.validate ⟨arrays, d, cache⟩ = .ok q) :
    q.arrays = arrays ∧ q.metadata = d ∧
      GraphPack.validate ⟨arrays, d', cache⟩ = .ok ⟨arrays, d', q.turnInEdge⟩ ∧
      GraphPack.validate ⟨arrays, d', q.turnInEdge⟩ = .ok ⟨arrays, d', q.turnInEdge⟩ := by
  obtain ⟨tails, inEdges, htails, hin, hturns, rfl⟩ := validate_eq_ok.mp h
  refine ⟨rfl, rfl, validate_eq_ok.mpr ⟨tails, inEdges, htails, hin, hturns, rfl⟩, ?_⟩
  exact validate_eq_ok.mpr ⟨tails, inEdges, htails, rfl, hturns, rfl⟩

/-- Every array that passes has a file. -/
theorem exists_ext {tails : List Scalar} (h : pack.checkArrays = .ok tails) (f : Field) :
    ∃ ext, (pack.arrays f).dtype.ext = some ext := by
  unfold GraphPack.checkArrays at h
  obtain ⟨-, -, h⟩ := bind_ok h
  obtain ⟨-, -, h⟩ := bind_ok h
  obtain ⟨-, -, h⟩ := bind_ok h
  obtain ⟨-, -, h⟩ := bind_ok h
  obtain ⟨-, -, h⟩ := bind_ok h
  obtain ⟨-, -, h⟩ := bind_ok h
  obtain ⟨-, -, h⟩ := bind_ok h
  obtain ⟨-, -, h⟩ := bind_ok h
  obtain ⟨⟨⟩, hforall, -⟩ := bind_ok h
  have hf := forM_ok hforall f.mem_all
  unfold check at hf
  split at hf
  · rename_i hext
    exact Option.isSome_iff_exists.mp hext
  · exact absurd hf (by simp)

end Validate

/-! ## `write` -/

section Write

variable {pack : GraphPack}

/-- An entry of the manifest is that of `meta`, or the computed one. -/
theorem get_manifest (table : List (String × Json)) (key : String) :
    (pack.manifest table).get key =
      (pack.metadata.get key).or ((pack.computed table).get key) :=
  Assoc.get_foldl_put_entries _ (f := id) Function.injective_id _ key

/-- A computed entry that is right is written right, just when `meta` has no wrong one. -/
theorem exists_get_manifest_iff {table : List (String × Json)} {key : String} {P : Json → Prop}
    {v : Json} (hv : (pack.computed table).get key = some v) (hP : P v) :
    (∃ v, (pack.manifest table).get key = some v ∧ P v) ↔
      ∀ v, pack.metadata.get key = some v → P v := by
  rw [get_manifest, hv]
  cases pack.metadata.get key with
  | none => exact iff_of_true ⟨v, rfl, hP⟩ fun _ h => absurd h (by simp)
  | some w =>
    simp only [Option.some_or, Option.some.injEq]
    constructor
    · rintro ⟨_, rfl, hw⟩ _ rfl
      exact hw
    · exact fun h => ⟨w, rfl, h w rfl⟩

theorem countsDescribe_counts : CountsDescribe pack.arrays pack.counts :=
  ⟨_, rfl, rfl, rfl, rfl, rfl⟩

/-- **What the manifest says** of the arrays is right just when `meta` says nothing else. -/
theorem describes_manifest_iff {table : List (String × Json)}
    (htable : TableDescribes pack.arrays (.obj table)) :
    Describes (pack.manifest table) pack.arrays ↔ MetaAgrees pack := by
  have hversion : (pack.computed table).get "format_version" =
      some (Json.count packFormatVersion) := by
    unfold GraphPack.computed
    iterate 4 rw [Assoc.get_put_of_ne _ (by decide)]
    rw [Assoc.get_put_self]
  have hcounts : (pack.computed table).get "counts" = some pack.counts := by
    unfold GraphPack.computed
    iterate 2 rw [Assoc.get_put_of_ne _ (by decide)]
    rw [Assoc.get_put_self]
  have harrays : (pack.computed table).get "arrays" = some (.obj table) := by
    unfold GraphPack.computed
    rw [Assoc.get_put_of_ne _ (by decide), Assoc.get_put_self]
  have hright : VersionDescribes (Json.count packFormatVersion) := rfl
  constructor
  · intro h
    exact ⟨(exists_get_manifest_iff hversion hright).mp h.version,
      (exists_get_manifest_iff hcounts countsDescribe_counts).mp h.counts,
      (exists_get_manifest_iff harrays htable).mp h.table⟩
  · intro h
    exact ⟨(exists_get_manifest_iff hversion hright).mpr h.version,
      (exists_get_manifest_iff hcounts countsDescribe_counts).mpr h.counts,
      (exists_get_manifest_iff harrays htable).mpr h.table⟩

/-- What `write` leaves of the arrays. -/
def Written (arrays : Field → NdArray) (dir : Dir) : Prop :=
  ∀ f ext, (arrays f).dtype.ext = some ext →
    dir (fileName f ext) = some (.bytes (arrays f).tofile)

/-- One array more, where every array has a file. -/
def GraphPack.putArray (pack : GraphPack) (ext : Field → String) (out : Dir × List (String × Json))
    (f : Field) : Dir × List (String × Json) :=
  (Function.update out.1 (fileName f (ext f)) (some (.bytes (pack.arrays f).tofile)),
    store f.name (pack.arraySpec f (ext f)) out.2)

/-- `out` has the file and the entry of an array. -/
def HasArray (pack : GraphPack) (ext : Field → String) (f : Field)
    (out : Dir × List (String × Json)) : Prop :=
  out.1 (fileName f (ext f)) = some (.bytes (pack.arrays f).tofile) ∧
    lookup f.name out.2 = some (pack.arraySpec f (ext f))

theorem hasArray_putArray (ext : Field → String) (out : Dir × List (String × Json)) (f : Field) :
    HasArray pack ext f (pack.putArray ext out f) :=
  ⟨Function.update_self .., (lookup_store ..).trans (if_pos rfl)⟩

/-- No array touches the file and the entry of another. -/
theorem HasArray.putArray {ext : Field → String} {f : Field} {out : Dir × List (String × Json)}
    (h : HasArray pack ext f out) (g : Field) : HasArray pack ext f (pack.putArray ext out g) := by
  by_cases hg : g = f
  · subst hg
    exact hasArray_putArray ext out g
  · refine ⟨(Function.update_of_ne (fun hfile => ?_) ..).trans h.1,
      (lookup_store ..).trans ((if_neg fun hname => ?_).trans h.2)⟩
    · exact hg (fileName_injective hfile).symm
    · exact hg (Field.name_injective hname)

/-- **What is written**: every array in its file, and the table that describes them. -/
theorem write_ok {pack' : GraphPack} (h : pack.validate = .ok pack') (dir : Dir) :
    ∃ dir' table, pack.write dir = .ok (pack', dir') ∧
      dir' "manifest.json" = some (.json (pack.manifest table)) ∧ Written pack.arrays dir' ∧
        TableDescribes pack.arrays (.obj table) := by
  obtain ⟨tails, -, htails, -⟩ := validate_eq_ok.mp h
  choose ext hext using exists_ext htails
  have hstep : ∀ out f, f ∈ Field.all → pack.writeArray out f = .ok (pack.putArray ext out f) := by
    intro out f _
    unfold GraphPack.writeArray
    rw [hext f]
    rfl
  have hfield : ∀ f, HasArray pack ext f (Field.all.foldl (pack.putArray ext) (dir, [])) := fun f =>
    foldl_of_mem f.mem_all (fun out => hasArray_putArray ext out f)
      (fun _ g hout => hout.putArray g) (dir, [])
  have hwrite : pack.writeAll dir = .ok (Field.all.foldl (pack.putArray ext) (dir, [])) :=
    foldlM_ok hstep (dir, [])
  generalize Field.all.foldl (pack.putArray ext) (dir, []) = out at hwrite hfield
  obtain ⟨files, table⟩ := out
  refine ⟨Function.update files "manifest.json" (some (.json (pack.manifest table))), table, ?_,
    Function.update_self .., fun f e he => ?_, _, rfl, fun f => ⟨_, (hfield f).2, ?_⟩⟩
  · unfold GraphPack.write
    rw [h, ok_bind, hwrite]
    rfl
  · obtain rfl : ext f = e := Option.some.inj ((hext f).symm.trans he)
    rw [Function.update_of_ne (fileName_ne_manifest f (ext f))]
    exact (hfield f).1
  · exact ⟨_, ext f, Json.count (pack.arrays f).len, rfl, hext f, rfl, rfl, rfl, rfl⟩

end Write

/-! ## `load` -/

section Load

variable {host : Host} {arrays : Field → NdArray} {dir : Dir} {m : Assoc String Json}

theorem itemsize_pos {d : Dtype} {ext : String} (h : d.ext = some ext) : 0 < d.itemsize := by
  cases d with
  | other => exact absurd h (by simp [Dtype.ext])
  | _ => decide

/-- An array is read as it was written. -/
theorem loadArray_ok (htable : ∃ v, m.get "arrays" = some v ∧ TableDescribes arrays v)
    (hfiles : Written arrays dir) (f : Field) : loadArray host dir m f = .ok (arrays f) := by
  obtain ⟨_, hget, fields, rfl, hspecs⟩ := htable
  obtain ⟨_, hspec, spec, ext, n, rfl, hext, hfile, hdtype, hshape, hn⟩ := hspecs f
  have hentry : entry m "arrays" = .ok (.obj fields) := by
    unfold entry
    rw [hget]
  have hitem : ∀ {key v}, lookup key spec = some v → (Json.obj spec).item key = .ok v := by
    intro key v h
    unfold Json.item
    simp only
    rw [h]
  have hrow : (Json.obj fields).item f.name = .ok (.obj spec) := by
    unfold Json.item
    simp only
    rw [hspec]
  have hpos := itemsize_pos hext
  have has : asDtype host (.str (arrays f).dtype.str) = .ok (arrays f).dtype := by
    unfold asDtype
    rw [host.dtype_str _ (by rw [hext]; rfl)]
    exact if_pos hpos
  have hbytes : readBytes host dir (fileName f ext) = .ok (arrays f).tofile := by
    unfold readBytes
    rw [hfiles f ext hext]
  unfold loadArray
  rw [hentry, ok_bind, hrow, ok_bind, hitem hfile, ok_bind, asPath, ok_bind, hitem hdtype,
    ok_bind, has, ok_bind, hbytes, ok_bind]
  simp only
  rw [(arrays f).fromfile_tofile hpos, hitem hshape, ok_bind, Json.first, ok_bind, if_pos hn]
  rfl

/-- **What is read**: the arrays that were written, if they are valid. -/
theorem load_ok (hm : dir "manifest.json" = some (.json m)) (hdesc : Describes m arrays)
    (hfiles : Written arrays dir) {fresh : GraphPack}
    (hfresh : GraphPack.validate ⟨arrays, Assoc.empty, none⟩ = .ok fresh) :
    load host dir = .ok ⟨arrays, keptMeta m, fresh.turnInEdge⟩ := by
  obtain ⟨v, hv, hversion⟩ := hdesc.version
  obtain ⟨-, -, hload, -⟩ := validate_again (keptMeta m) hfresh
  have hread : readManifest host dir = .ok m := by
    unfold readManifest
    rw [hm]
  have hentry : entry m "format_version" = .ok v := by
    unfold entry
    rw [hv]
  have hfold : Field.all.foldlM (loadField host dir m) Assoc.empty =
      .ok (Field.all.foldl (fun kwargs f => kwargs.put f (arrays f)) Assoc.empty) := by
    refine foldlM_ok (fun kwargs f _ => ?_) _
    unfold loadField
    rw [loadArray_ok hdesc.table hfiles, ok_bind]
    rfl
  have hget : ∀ f, (Field.all.foldl (fun kwargs f => kwargs.put f (arrays f))
      (Assoc.empty : Assoc Field NdArray)).get f = some (arrays f) := by
    intro f
    refine foldl_of_mem (I := fun kwargs : Assoc Field NdArray => kwargs.get f = some (arrays f))
      f.mem_all (fun kwargs => kwargs.get_put_self f _) (fun kwargs g h => ?_) _
    rw [Assoc.get_put]
    split
    · rename_i hgf
      rw [hgf]
    · exact h
  have harrays : (fun f => ((Field.all.foldl (fun kwargs f => kwargs.put f (arrays f))
      (Assoc.empty : Assoc Field NdArray)).get f).getD NdArray.empty) = arrays := by
    funext f
    rw [hget f]
    rfl
  have hsame : ¬ v.number? ≠ some (packFormatVersion : ℚ) := not_not.mpr hversion
  unfold load
  rw [hread, ok_bind, hentry, ok_bind, if_neg hsame, hfold, ok_bind, harrays]
  exact hload

end Load

/-! ## There and back -/

section Cycle

variable {host : Host} {pack : GraphPack}

/-- A written manifest describes the arrays only if `meta` says nothing else of them. -/
theorem metaAgrees_of_roundTrips {dir : Dir} (h : RoundTrips host pack dir) :
    (∃ pack', pack.validate = .ok pack') ∧ MetaAgrees pack := by
  obtain ⟨pack', dir', m, q, hwrite, hm, hdesc, -, -⟩ := h
  have hval : ∃ p, pack.validate = .ok p := by
    unfold GraphPack.write at hwrite
    obtain ⟨p, hp, -⟩ := bind_ok hwrite
    exact ⟨p, hp⟩
  refine ⟨hval, ?_⟩
  obtain ⟨p, hp⟩ := hval
  obtain ⟨dir'', table, hwrite', hm', -, htable⟩ := write_ok hp dir
  obtain ⟨-, rfl⟩ := Prod.mk.inj (Except.ok.inj (hwrite.symm.trans hwrite'))
  obtain rfl : m = pack.manifest table :=
    Content.json.inj (Option.some.inj (hm.symm.trans hm'))
  exact (describes_manifest_iff htable).mp hdesc

/-- **What a written pack is loaded as**: its arrays, and the manifest for its `meta`. -/
theorem exists_loaded (host : Host) {fresh pack' : GraphPack} (hval : pack.validate = .ok pack')
    (hmeta : MetaAgrees pack)
    (hfresh : GraphPack.validate ⟨pack.arrays, Assoc.empty, none⟩ = .ok fresh) (dir : Dir) :
    ∃ dir' m, pack.write dir = .ok (pack', dir') ∧ dir' "manifest.json" = some (.json m) ∧
      Describes m pack.arrays ∧
        load host dir' = .ok ⟨pack.arrays, keptMeta m, fresh.turnInEdge⟩ := by
  obtain ⟨dir', table, hwrite, hm, hfiles, htable⟩ := write_ok hval dir
  have hdesc := (describes_manifest_iff htable).mpr hmeta
  exact ⟨dir', _, hwrite, hm, hdesc, load_ok hm hdesc hfiles hfresh⟩

/-- What `load` keeps of an entry. -/
theorem get_keptMeta {m : Assoc String Json} {key : String} :
    (keptMeta m).get key = if key ≠ "arrays" ∧ key ≠ "enums" then m.get key else none := by
  have hiff : ∀ v, (keptMeta m).get key = some v ↔
      m.get key = some v ∧ key ≠ "arrays" ∧ key ≠ "enums" := by
    intro v
    rw [← Assoc.mem_entries_iff, ← Assoc.mem_entries_iff]
    simp [keptMeta, List.mem_filter]
  refine Option.ext fun v => ?_
  rw [hiff v]
  split
  · rename_i hkey
    exact and_iff_left hkey
  · rename_i hkey
    exact iff_of_false (fun h => hkey h.2) (by simp)

/-- The `meta` of a loaded pack agrees with the arrays it was loaded with. -/
theorem metaAgrees_loaded {m : Assoc String Json} {arrays : Field → NdArray}
    (h : Describes m arrays) (cache : Option (List ℤ)) :
    MetaAgrees ⟨arrays, keptMeta m, cache⟩ := by
  refine ⟨fun v hv => ?_, fun v hv => ?_, fun v hv => ?_⟩
  · obtain ⟨w, hw, hwd⟩ := h.version
    rw [get_keptMeta, if_pos (by decide), hw] at hv
    exact Option.some.inj hv ▸ hwd
  · obtain ⟨w, hw, hwd⟩ := h.counts
    rw [get_keptMeta, if_pos (by decide), hw] at hv
    exact Option.some.inj hv ▸ hwd
  · rw [get_keptMeta, if_neg (by decide)] at hv
    exact absurd hv (by simp)

/-- A pack that makes the round trip. -/
structure Sound (pack : GraphPack) : Prop where
  valid : ValidArrays pack.arrays
  passes : ∃ pack', pack.validate = .ok pack'
  agrees : MetaAgrees pack

theorem Sound.roundTrips (h : Sound pack) (dir : Dir) : RoundTrips host pack dir := by
  obtain ⟨fresh, hfresh⟩ := h.valid
  obtain ⟨pack', hval⟩ := h.passes
  obtain ⟨dir', m, hwrite, hm, hdesc, hload⟩ := exists_loaded host hval h.agrees hfresh dir
  exact ⟨pack', dir', m, _, hwrite, hm, hdesc, hload, rfl⟩

/-- `q` is loaded from what `pack` was written to. -/
def Cycle (host : Host) (pack q : GraphPack) : Prop :=
  ∃ dir pack' dir', pack.write dir = .ok (pack', dir') ∧ load host dir' = .ok q

theorem Sound.cycle {q : GraphPack} (h : Sound pack) (hc : Cycle host pack q) :
    Sound q ∧ q.arrays = pack.arrays := by
  obtain ⟨dir, pack'', dir'', hwrite, hq⟩ := hc
  obtain ⟨fresh, hfresh⟩ := h.valid
  obtain ⟨pack', hval⟩ := h.passes
  obtain ⟨dir', m, hwrite', -, hdesc, hload⟩ := exists_loaded host hval h.agrees hfresh dir
  obtain ⟨-, rfl⟩ := Prod.mk.inj (Except.ok.inj (hwrite.symm.trans hwrite'))
  obtain rfl := Except.ok.inj (hq.symm.trans hload)
  obtain ⟨-, -, -, hagain⟩ := validate_again (keptMeta m) hfresh
  exact ⟨⟨h.valid, ⟨_, hagain⟩, metaAgrees_loaded hdesc _⟩, rfl⟩

/-- **Any number of cycles** keeps the arrays, and the last pack makes the trip again. -/
theorem Sound.cycles {q : GraphPack} (h : Sound pack)
    (hc : Relation.ReflTransGen (Cycle host) pack q) :
    q.arrays = pack.arrays ∧ ∀ dir, RoundTrips host q dir := by
  have hrun : Sound q ∧ q.arrays = pack.arrays := by
    induction hc with
    | refl => exact ⟨h, rfl⟩
    | tail _ hstep ih =>
      obtain ⟨hsound, harr⟩ := ih.1.cycle hstep
      exact ⟨hsound, harr.trans ih.2⟩
  exact ⟨hrun.2, hrun.1.roundTrips⟩

end Cycle

/-- **When the round trip is right**: just when `validate` passes with the cache that the pack has,
and no entry of `meta` says anything else of the arrays. -/
theorem roundTrips_iff (host : Host) {pack : GraphPack} (hvalid : ValidArrays pack.arrays)
    (dir : Dir) :
    RoundTrips host pack dir ↔ (∃ pack', pack.validate = .ok pack') ∧ MetaAgrees pack :=
  ⟨metaAgrees_of_roundTrips, fun h => Sound.roundTrips ⟨hvalid, h.1, h.2⟩ dir⟩

/-! ## A pack with the counts of another -/

/-- A host whose dtypes are the four that packs use. -/
def plainHost : Host where
  dtype
    | .str "<f8" => some .f64
    | .str "<i8" => some .i64
    | .str "<i4" => some .i32
    | .str "|u1" => some .u8
    | _ => none
  dtype_str d hd := by
    cases d with
    | other => exact absurd hd (by simp [Dtype.ext])
    | _ => rfl
  text _ := []
  loads _ := none

/-- `np.zeros(n, dtype)`. -/
def zeros (d : Dtype) (n : ℕ) : NdArray where
  dtype := d
  words := List.replicate n 0
  fits w hw := by
    rw [List.eq_of_mem_replicate hw]
    exact Nat.pow_pos (by decide)

/-- `n` nodes without an edge. -/
def nodesOnly (n : ℕ) : Field → NdArray
  | .nodeLat | .nodeLon => zeros .f64 n
  | .nodeOsmid => zeros .i64 n
  | .nodeControl => zeros .u8 n
  | .nodeOutPtr => zeros .i32 (n + 1)
  | .edgeGeomPtr | .turnPtr => zeros .i32 1
  | .edgeTail | .edgeHead | .edgeReverse | .turnOutEdge => zeros .i32 0
  | .edgeOsmWay => zeros .i64 0
  | .edgeMedian | .edgeRoadClass | .edgeApproachControl | .edgeMustStop
  | .edgeControlConfidence | .turnManeuver | .turnAllowed => zeros .u8 0
  | _ => zeros .f64 0

/-- A pack of one node. -/
def oneNode : GraphPack := ⟨nodesOnly 1, Assoc.empty, none⟩

theorem validate_oneNode : oneNode.validate = .ok ⟨nodesOnly 1, Assoc.empty, some []⟩ := rfl

theorem validArrays_two : ValidArrays (nodesOnly 2) := ⟨_, rfl⟩

/-- A pack of one node that is loaded and given two is written with the counts of one. -/
theorem rebuilt_keeps_counts :
    ∃ pack' dir' q, oneNode.write (fun _ => none) = .ok (pack', dir') ∧
      load plainHost dir' = .ok q ∧ ValidArrays (nodesOnly 2) ∧
        (∃ r, GraphPack.validate { q with arrays := nodesOnly 2 } = .ok r) ∧
          ∀ dir, ¬ RoundTrips plainHost { q with arrays := nodesOnly 2 } dir := by
  have hmeta : MetaAgrees oneNode := ⟨nofun, nofun, nofun⟩
  obtain ⟨dir', m, hwrite, hm, hdesc, hload⟩ :=
    exists_loaded plainHost validate_oneNode hmeta validate_oneNode fun _ => none
  refine ⟨_, dir', _, hwrite, hload, validArrays_two, ⟨_, rfl⟩, fun dir h => ?_⟩
  obtain ⟨v, hv, fields, rfl, hold, -⟩ := hdesc.counts
  have hkept : (keptMeta m).get "counts" = some (.obj fields) := by
    rw [get_keptMeta, if_pos (by decide), hv]
  obtain ⟨fields', heq, hnew, -⟩ := (metaAgrees_of_roundTrips h).2.counts _ hkept
  obtain rfl := Json.obj.inj heq
  have hne : some ((nodesOnly 1 .nodeLat).len : ℚ) ≠ some ((nodesOnly 2 .nodeLat).len : ℚ) := by
    decide
  exact hne (hold.symm.trans hnew)

/-- `np.array(words, dtype)`, of words of the width. -/
def ofWords (d : Dtype) (words : List ℕ) : NdArray where
  dtype := d
  words := words.map (· % 256 ^ d.itemsize)
  fits w hw := by
    obtain ⟨v, -, rfl⟩ := List.mem_map.mp hw
    exact Nat.mod_lt _ (Nat.pow_pos (by decide))

/-- A two-way street between two nodes, with its two turns back. -/
def streetArrays : Field → NdArray
  | .nodeOsmid => ofWords .i64 [11, 12]
  | .nodeOutPtr | .turnPtr => ofWords .i32 [0, 1, 2]
  | .edgeGeomPtr => ofWords .i32 [0, 2, 4]
  | .edgeTail => ofWords .i32 [0, 1]
  | .edgeHead | .edgeReverse | .turnOutEdge => ofWords .i32 [1, 0]
  | .edgeOsmWay => ofWords .i64 [7, 7]
  | .nodeControl | .edgeMedian | .edgeApproachControl | .edgeMustStop
  | .edgeControlConfidence => zeros .u8 2
  | .edgeRoadClass => ofWords .u8 [5, 5]
  | .turnManeuver => ofWords .u8 [3, 3]
  | .turnAllowed => ofWords .u8 [1, 1]
  | .geomLat | .geomLon => zeros .f64 4
  | _ => zeros .f64 2

/-- The street, with the `meta` that a loaded pack has: its version and its counts. -/
def twoWayStreet : GraphPack where
  arrays := streetArrays
  metadata := ((Assoc.empty.put "format_version" (Json.count 2)).put "counts" (.obj
    [("num_nodes", Json.count 2), ("num_edges", Json.count 2), ("num_turns", Json.count 2),
      ("num_geom_points", Json.count 4)])).put "region" (.str "toyland")
  turnInEdge := some [0, 1]

theorem validate_twoWayStreet : twoWayStreet.validate = .ok twoWayStreet := rfl

theorem metaAgrees_twoWayStreet : MetaAgrees twoWayStreet where
  version v hv := by
    obtain rfl : Json.count 2 = v := Option.some.inj hv
    rfl
  counts v hv := ⟨_, (Option.some.inj hv).symm, rfl, rfl, rfl, rfl⟩
  table := nofun

/-- The street makes the round trip. -/
theorem roundTrips_iff_twoWayStreet :
    (RoundTrips plainHost twoWayStreet (fun _ => none) ↔
      (∃ pack', twoWayStreet.validate = .ok pack') ∧ MetaAgrees twoWayStreet) ∧
    RoundTrips plainHost twoWayStreet (fun _ => none) := by
  have hvalid : ValidArrays twoWayStreet.arrays := ⟨⟨_, _, some [0, 1]⟩, rfl⟩
  have hiff := roundTrips_iff plainHost hvalid fun _ => none
  exact ⟨hiff, hiff.mpr ⟨⟨_, validate_twoWayStreet⟩, metaAgrees_twoWayStreet⟩⟩

end RoutePlanner.Graph
