import Mathlib.Data.List.Sort
import Mathlib.Logic.Function.Basic
import RoutePlanner.Lib.Dict
import RoutePlanner.Lib.Fallible

/-!
# `api/packs_fetch.py`: the packs a deployment starts from

`ensure_packs` fills the pack root at startup: every configured region that has no manifest is
downloaded, checked against `packs.lock`, unpacked into a staging directory and renamed into place.

* A region names one directory of the root. A `Disk` holds what is there, before and after.
* A `Host` is what the interpreter, the operating system and the network answer: the environment,
  the lock file, and for the `i`-th region that is fetched an `Attempt`, in which every call may
  raise. `filter="data"` keeps `extractall` inside the staging directory.
* An exception is a `PackFetchError`, with what its message names, or one that is not.

Results:
* `Attempt.Gives`, `Attempt.Caught`: when the calls of a download lead to a payload, and when what
  they raise is caught.
* `fetchAll_keeps`: whatever happens, the loop installs verified payloads in vacant places, and
  nothing else.
* `fetchAll_failsOnly`: when the loop raises nothing but a `PackFetchError` (`Fetchable`).
  `os.replace` is the call that a directory's former state decides: it takes the place of an absent
  or an empty directory only.
-/

namespace RoutePlanner.Api

open RoutePlanner.Lib

/-! ## What is on disk -/

/-- A file or a directory. -/
inductive Node where
  | file (bytes : List UInt8)
  | dir (entries : List (String × Node))

/-- The pack root, by region. -/
abbrev Disk := String → Option Node

/-- `_is_present`: there is a manifest, and it is a file. -/
def isPresent (packDir : Option Node) : Bool :=
  match packDir with
  | some (.dir entries) =>
    match dictGet entries "manifest.json" with
    | some (.file _) => true
    | _ => false
  | _ => false

/-! ## What is raised -/

/-- An exception that is no `PackFetchError`, by the classes that the code tells apart. -/
inductive Raised where
  | osError (text : String)
  | httpError (text : String)
  | tarError (text : String)
  | other (text : String)

/-- `PackFetchError`, with what its message names. -/
inductive PackFetchError where
  | notConfigured (missing : List String)
  | formatVersion (published : ℤ)
  | unpublished (unknown has : List String)
  | downloadFailed (url : String) (exc : Raised)
  | checksumMismatch (region url digest expected : String)
  | notUnpacked (region url : String) (exc : Raised)
  | noManifest (region : String) (found : List String)

/-- What a call fails with. -/
inductive Failure where
  | packFetch (e : PackFetchError)
  | raised (e : Raised)

/-! ## The lock -/

/-- `PACK_FORMAT_VERSION`. -/
def packFormatVersion : ℤ := 2

/-- `PackSpec`. -/
structure PackSpec where
  region : String
  sha256 : String
  tag : Option String

/-- `PacksLock`. The values of `regions`, each of which is kept under its `region`. -/
structure PacksLock where
  baseUrl : String
  tag : String
  formatVersion : ℤ
  regions : List PackSpec

namespace PacksLock

variable (lock : PacksLock)

/-- `enabled`. -/
def enabled : Bool := lock.baseUrl ≠ "" && !lock.regions.isEmpty

/-- `regions.get(region)`. -/
def spec (region : String) : Option PackSpec := lock.regions.find? fun s => s.region == region

/-- `tag_for`. -/
def tagFor (region : String) : String := ((lock.spec region).bind PackSpec.tag).getD lock.tag

/-- `url_for`. -/
def urlFor (region : String) : String :=
  let base := if lock.baseUrl.endsWith "/" then lock.baseUrl else lock.baseUrl ++ "/"
  let tag := lock.tagFor region
  let tagDir := if tag = "" then "" else tag ++ "/"
  base ++ tagDir ++ region ++ ".tar.gz"

end PacksLock

/-- A value of a TOML file. Of one that is neither a string nor a table, the code asks for `str`
and for the truth value. -/
inductive Toml where
  | str (s : String)
  | table (entries : List (String × Toml))
  | other (text : String) (truthy : Bool)

/-- What is found at the path of the lock. -/
inductive LockFile where
  | absent
  | unreadable (e : Raised)  -- no permission, no UTF-8, no TOML
  | toml (raw : List (String × Toml))

/-! ## What the host answers -/

/-- What the calls of one `_fetch_one` do. The archive that is unpacked is the one whose digest
`download` returned. -/
structure Attempt where
  staging : Option Raised
  download : Except Raised String
  extractedDir : Option Raised
  unpack : Except Raised (List (String × Node))
  rename : Option Raised

/-- The interpreter, the operating system and the network. -/
structure Host where
  environ : String → Option String
  lockFile : String → LockFile
  text : Toml → String
  int : Toml → Except Raised ℤ
  lower : String → String
  makeRoot : Option Raised
  client : Option Raised
  attempt : ℕ → Attempt

/-- `str(value)`. -/
def Host.str (host : Host) : Toml → String
  | .str s => s
  | value => host.text value

/-- `value or default`. -/
def orDefault (value : Option String) (default : String) : String :=
  match value with
  | some v => if v = "" then default else v
  | none => default

/-! ## The code -/

section Code

variable (host : Host)

/-- One entry of `[regions]`. -/
def packSpec (named : String × Toml) : Except Raised PackSpec :=
  match named.2 with
  | .table entry =>
    match dictGet entry "sha256" with
    | none => .error (.other "KeyError: 'sha256'")
    | some sha => .ok ⟨named.1, host.lower (host.str sha), (dictGet entry "tag").map host.str⟩
  | _ => .error (.other "TypeError")

/-- `(raw.get("regions") or {}).items()`. -/
def regionItems (raw : List (String × Toml)) : Except Raised (List (String × Toml)) :=
  match dictGet raw "regions" with
  | none => .ok []
  | some (.table entries) => .ok entries
  | some (.str s) => if s = "" then .ok [] else .error (.other "AttributeError")
  | some (.other _ truthy) => if truthy then .error (.other "AttributeError") else .ok []

/-- `load_lock`, without a path. -/
def loadLock : Except Raised (Option PacksLock) :=
  match host.lockFile (orDefault (host.environ "SR_PACKS_LOCK") "packs.lock") with
  | .absent => .ok none
  | .unreadable e => .error e
  | .toml raw => do
    let items ← regionItems raw
    let regions ← items.mapM (packSpec host)
    let baseUrl := orDefault (host.environ "SR_PACKS_URL")
      (((dictGet raw "base_url").map host.str).getD "")
    let tag := ((dictGet raw "tag").map host.str).getD ""
    let formatVersion ← match dictGet raw "format_version" with
      | none => .ok packFormatVersion
      | some value => host.int value
    return some ⟨baseUrl, tag, formatVersion, regions⟩

/-- `_download`: an `httpx.HTTPError` is wrapped. -/
def download (attempt : Attempt) (url : String) : Except Failure String :=
  match attempt.download with
  | .ok digest => .ok digest
  | .error (.httpError text) => .error (.packFetch (.downloadFailed url (.httpError text)))
  | .error e => .error (.raised e)

/-- `extractall` under its `except (tarfile.TarError, OSError)`. -/
def unpack (attempt : Attempt) (region url : String) :
    Except Failure (List (String × Node)) :=
  match attempt.unpack with
  | .ok extracted => .ok extracted
  | .error (.tarError text) => .error (.packFetch (.notUnpacked region url (.tarError text)))
  | .error (.osError text) => .error (.packFetch (.notUnpacked region url (.osError text)))
  | .error e => .error (.raised e)

/-- A call that returns nothing. -/
def orRaise (call : Option Raised) : Except Failure Unit :=
  match call with
  | none => .ok ()
  | some e => .error (.raised e)

/-- `_fetch_one` up to its last call: the payload to be installed. -/
def verifiedPayload (lock : PacksLock) (spec : PackSpec) (attempt : Attempt) :
    Except Failure Node := do
  let url := lock.urlFor spec.region
  orRaise attempt.staging
  let digest ← download attempt url
  if digest ≠ spec.sha256 then
    throw (.packFetch (.checksumMismatch spec.region url digest spec.sha256))
  orRaise attempt.extractedDir
  let extracted ← unpack attempt spec.region url
  match dictGet extracted spec.region with
  | some payload =>
    if isPresent (some payload) = true then return payload
    else throw (.packFetch (.noManifest spec.region ((extracted.map Prod.fst).mergeSort)))
  | none => throw (.packFetch (.noManifest spec.region ((extracted.map Prod.fst).mergeSort)))

/-- `os.replace` of a directory, onto what is at `target`: it takes the place of an empty directory
and of nothing else. -/
def osReplace (refused : Option Raised) (target : Option Node) : Option Raised :=
  match refused, target with
  | some e, _ => some e
  | none, none => none
  | none, some (.dir []) => none
  | none, some (.dir (_ :: _)) => some (.osError "Directory not empty")
  | none, some (.file _) => some (.osError "Not a directory")

/-- `_fetch_one`. Whatever is raised, the staging directory is removed. -/
def fetchOne (lock : PacksLock) (spec : PackSpec) (attempt : Attempt) (disk : Disk) :
    Except Failure Disk := do
  let payload ← verifiedPayload lock spec attempt
  orRaise (osReplace attempt.rename (disk spec.region))
  return Function.update disk spec.region (some payload)

/-- The loop of `ensure_packs` from the `i`-th download on: how it ends, and the disk then. -/
def fetchAll (lock : PacksLock) : List String → ℕ → Disk → Except Failure Unit × Disk
  | [], _, disk => (.ok (), disk)
  | region :: rest, i, disk =>
    match lock.spec region with
    | none => (.error (.raised (.other "KeyError")), disk)
    | some spec =>
      match fetchOne lock spec (host.attempt i) disk with
      | .error e => (.error e, disk)
      | .ok disk' => fetchAll lock rest (i + 1) disk'

/-- The requested regions without a manifest. -/
def missingOf (regions : List String) (disk : Disk) : List String :=
  regions.filter fun r => !isPresent (disk r)

/-- The regions that the lock does not publish. -/
def unknownOf (lock : PacksLock) (missing : List String) : List String :=
  missing.filter fun r => (lock.spec r).isNone

/-- The lock in force: the one given, or the one on disk. -/
def lockInForce (lock : Option PacksLock) : Except Raised (Option PacksLock) :=
  match lock with
  | some lock => .ok (some lock)
  | none => loadLock host

/-- `ensure_packs`: what it returns or raises, and the disk afterwards. -/
def ensurePacks (regions : List String) (lock : Option PacksLock) (disk : Disk) :
    Except Failure (List String) × Disk :=
  let missing := missingOf regions disk
  if missing = [] then (.ok [], disk)
  else
    match lockInForce host lock with
    | .error e => (.error (.raised e), disk)
    | .ok none => (.error (.packFetch (.notConfigured missing)), disk)
    | .ok (some lock) =>
      if lock.enabled = false then (.error (.packFetch (.notConfigured missing)), disk)
      else if lock.formatVersion ≠ packFormatVersion then
        (.error (.packFetch (.formatVersion lock.formatVersion)), disk)
      else if unknownOf lock missing ≠ [] then
        (.error (.packFetch (.unpublished (unknownOf lock missing)
          (lock.regions.map PackSpec.region).mergeSort)), disk)
      else
        match host.makeRoot, host.client with
        | some e, _ => (.error (.raised e), disk)
        | none, some e => (.error (.raised e), disk)
        | none, none =>
          match fetchAll host lock missing 0 disk with
          | (.ok (), disk') => (.ok missing, disk')
          | (.error e, disk') => (.error e, disk')

end Code

/-! ## One download -/

/-- What the `i`-th download gives for `region`. -/
def payloadOf (host : Host) (lock : PacksLock) (i : ℕ) (region : String) : Except Failure Node :=
  match lock.spec region with
  | none => .error (.raised (.other "KeyError"))
  | some spec => verifiedPayload lock spec (host.attempt i)

/-- Nothing is at the target, or an empty directory. -/
def Vacant (target : Option Node) : Prop := target = none ∨ target = some (.dir [])

/-- `node` is the payload of an archive with the digest that the lock gives for `region`. -/
def Verified (host : Host) (lock : PacksLock) (region : String) (node : Node) : Prop :=
  ∃ i spec extracted, lock.spec region = some spec ∧
    (host.attempt i).download = .ok spec.sha256 ∧ (host.attempt i).unpack = .ok extracted ∧
      dictGet extracted region = some node

theorem spec_region {lock : PacksLock} {region : String} {spec : PackSpec}
    (h : lock.spec region = some spec) : spec.region = region := by
  unfold PacksLock.spec at h
  simpa using List.find?_some h

/-- The calls of an attempt give `payload`: an archive with the digest `sha` is downloaded, and
unpacks to a directory `region` that has a manifest. -/
structure Attempt.Gives (attempt : Attempt) (region sha : String) (payload : Node) : Prop where
  staging : attempt.staging = none
  download : attempt.download = .ok sha
  extractedDir : attempt.extractedDir = none
  unpack : ∃ extracted, attempt.unpack = .ok extracted ∧ dictGet extracted region = some payload
  manifest : isPresent (some payload) = true

/-- What the calls of an attempt raise up to the payload is caught: both directories are made, the
download raises an `httpx.HTTPError` if anything, and `extractall` a `TarError` or an `OSError`. An
archive with another digest than `sha` is not unpacked. -/
structure Attempt.Caught (attempt : Attempt) (sha : String) : Prop where
  staging : attempt.staging = none
  download : ∀ e, attempt.download = .error e → ∃ text, e = .httpError text
  extractedDir : attempt.download = .ok sha → attempt.extractedDir = none
  unpack : attempt.download = .ok sha → ∀ e, attempt.unpack = .error e →
    ∃ text, e = .tarError text ∨ e = .osError text

/-- The failure is a `PackFetchError`. -/
def Failure.IsPackFetch (e : Failure) : Prop := ∀ raised, e ≠ .raised raised

theorem isPackFetch_packFetch (m : PackFetchError) : (Failure.packFetch m).IsPackFetch :=
  fun _ h => nomatch h

theorem isPackFetch_raised {e : Raised} : ¬ (Failure.raised e).IsPackFetch := fun h => h e rfl

theorem failsOnly_isPackFetch {α : Type} {x : Except Failure α} :
    FailsOnly Failure.IsPackFetch x ↔ ∀ e, x ≠ .error (.raised e) :=
  ⟨fun h e he => h _ he e rfl, fun h _ he e hraised => h e (hraised ▸ he)⟩

section Download

variable {lock : PacksLock} {spec : PackSpec} {attempt : Attempt} {region url : String}

theorem orRaise_eq_ok {call : Option Raised} : orRaise call = .ok () ↔ call = none := by
  cases call <;> simp [orRaise]

theorem orRaise_failsOnly {call : Option Raised} :
    FailsOnly Failure.IsPackFetch (orRaise call) ↔ call = none := by
  cases call with
  | none => exact iff_of_true failsOnly_ok rfl
  | some e => exact iff_of_false (fun h => isPackFetch_raised (failsOnly_error.mp h)) (by simp)

theorem download_eq_ok {digest : String} :
    download attempt url = .ok digest ↔ attempt.download = .ok digest := by
  unfold download
  split <;> simp_all

theorem download_failsOnly : FailsOnly Failure.IsPackFetch (download attempt url) ↔
    ∀ e, attempt.download = .error e → ∃ text, e = .httpError text := by
  unfold download
  split
  · rename_i digest hd
    exact iff_of_true failsOnly_ok (by simp [hd])
  · rename_i text hd
    refine iff_of_true (failsOnly_error.mpr (isPackFetch_packFetch _)) fun e he => ⟨text, ?_⟩
    exact (Except.error.inj (hd.symm.trans he)).symm
  · rename_i e hhttp hd
    refine iff_of_false (fun h => isPackFetch_raised (failsOnly_error.mp h)) fun h => ?_
    obtain ⟨text, rfl⟩ := h e hd
    exact hhttp text rfl

theorem unpack_eq_ok {extracted : List (String × Node)} :
    unpack attempt region url = .ok extracted ↔ attempt.unpack = .ok extracted := by
  unfold unpack
  split <;> simp_all

theorem unpack_failsOnly : FailsOnly Failure.IsPackFetch (unpack attempt region url) ↔
    ∀ e, attempt.unpack = .error e → ∃ text, e = .tarError text ∨ e = .osError text := by
  have hcaught : ∀ {m : PackFetchError} {e : Raised}, attempt.unpack = .error e →
      (∃ text, e = .tarError text ∨ e = .osError text) →
      (FailsOnly Failure.IsPackFetch
        (.error (.packFetch m) : Except Failure (List (String × Node))) ↔
        ∀ e, attempt.unpack = .error e → ∃ text, e = .tarError text ∨ e = .osError text) := by
    intro m e hu he
    refine iff_of_true (failsOnly_error.mpr (isPackFetch_packFetch m)) fun e' he' => ?_
    rwa [← Except.error.inj (hu.symm.trans he')]
  unfold unpack
  split
  · rename_i extracted hu
    exact iff_of_true failsOnly_ok (by simp [hu])
  · rename_i text hu
    exact hcaught hu ⟨text, Or.inl rfl⟩
  · rename_i text hu
    exact hcaught hu ⟨text, Or.inr rfl⟩
  · rename_i e htar hos hu
    refine iff_of_false (fun h => isPackFetch_raised (failsOnly_error.mp h)) fun h => ?_
    obtain ⟨text, rfl | rfl⟩ := h e hu
    · exact htar text rfl
    · exact hos text rfl

/-- **When a payload is to be installed.** -/
theorem verifiedPayload_eq_ok {payload : Node} : verifiedPayload lock spec attempt = .ok payload ↔
    attempt.Gives spec.region spec.sha256 payload := by
  constructor
  · intro h
    unfold verifiedPayload at h
    obtain ⟨⟨⟩, hstaging, h⟩ := bind_ok h
    obtain ⟨digest, hdigest, h⟩ := bind_ok h
    split at h
    · obtain ⟨_, hthrow, -⟩ := bind_ok h
      exact absurd hthrow throw_ne_ok
    · rename_i heq
      obtain rfl : digest = spec.sha256 := not_not.mp heq
      obtain ⟨⟨⟩, hdir, h⟩ := bind_ok h
      obtain ⟨extracted, hextracted, h⟩ := bind_ok h
      split at h
      · rename_i node hnode
        split at h
        · rename_i hpresent
          obtain rfl : node = payload := Except.ok.inj h
          exact ⟨orRaise_eq_ok.mp hstaging, download_eq_ok.mp hdigest, orRaise_eq_ok.mp hdir,
            ⟨extracted, unpack_eq_ok.mp hextracted, hnode⟩, hpresent⟩
        · exact absurd h throw_ne_ok
      · exact absurd h throw_ne_ok
  · rintro ⟨hs, hd, hdir, ⟨extracted, hu, hget⟩, hm⟩
    unfold verifiedPayload
    rw [orRaise_eq_ok.mpr hs, ok_bind, download_eq_ok.mpr hd, ok_bind, if_neg (not_not.mpr rfl),
      orRaise_eq_ok.mpr hdir, ok_bind, unpack_eq_ok.mpr hu, ok_bind, hget]
    exact if_pos hm

/-- **When nothing but a `PackFetchError` is raised** on the way to the payload. -/
theorem verifiedPayload_failsOnly :
    FailsOnly Failure.IsPackFetch (verifiedPayload lock spec attempt) ↔
      attempt.Caught spec.sha256 := by
  have hthrow : ∀ {β : Type} {m : PackFetchError} {f : Unit → Except Failure β},
      FailsOnly Failure.IsPackFetch (throw (.packFetch m) >>= f) := fun {_ m _} =>
    failsOnly_error.mpr (isPackFetch_packFetch m)
  unfold verifiedPayload
  rw [failsOnly_bind, orRaise_failsOnly]
  constructor
  · rintro ⟨hs, h⟩
    obtain ⟨hdownload, h⟩ := failsOnly_bind.mp (h () (orRaise_eq_ok.mpr hs))
    have hrest : attempt.download = .ok spec.sha256 → _ := fun hd =>
      failsOnly_bind.mp (if_neg (not_not.mpr rfl) ▸ h spec.sha256 (download_eq_ok.mpr hd))
    refine ⟨hs, download_failsOnly.mp hdownload, fun hd => orRaise_failsOnly.mp (hrest hd).1,
      fun hd => ?_⟩
    obtain ⟨hdir, hrest⟩ := hrest hd
    exact unpack_failsOnly.mp
      (failsOnly_bind.mp (hrest () (orRaise_eq_ok.mpr (orRaise_failsOnly.mp hdir)))).1
  · rintro ⟨hs, hdownload, hdir, hunpack⟩
    refine ⟨hs, fun _ _ => failsOnly_bind.mpr ⟨download_failsOnly.mpr hdownload,
      fun digest hd => ?_⟩⟩
    split
    · exact hthrow
    · rename_i heq
      obtain rfl : digest = spec.sha256 := not_not.mp heq
      have hd := download_eq_ok.mp hd
      refine failsOnly_bind.mpr ⟨orRaise_failsOnly.mpr (hdir hd), fun _ _ =>
        failsOnly_bind.mpr ⟨unpack_failsOnly.mpr (hunpack hd), fun extracted _ => ?_⟩⟩
      split
      · split
        · exact failsOnly_ok
        · exact failsOnly_error.mpr (isPackFetch_packFetch _)
      · exact failsOnly_error.mpr (isPackFetch_packFetch _)

end Download

section Payload

variable {host : Host} {lock : PacksLock} {i : ℕ} {region : String}

/-- The `i`-th download gives `payload` for `region`. -/
def Gives (host : Host) (lock : PacksLock) (i : ℕ) (region : String) (payload : Node) : Prop :=
  ∃ spec, lock.spec region = some spec ∧ (host.attempt i).Gives region spec.sha256 payload

/-- What the `i`-th download raises for `region` is caught. -/
def Caught (host : Host) (lock : PacksLock) (i : ℕ) (region : String) : Prop :=
  ∃ spec, lock.spec region = some spec ∧ (host.attempt i).Caught spec.sha256

theorem payloadOf_eq_ok {payload : Node} :
    payloadOf host lock i region = .ok payload ↔ Gives host lock i region payload := by
  unfold payloadOf Gives
  cases hspec : lock.spec region with
  | none => simp
  | some spec =>
    obtain rfl := spec_region hspec
    simp [verifiedPayload_eq_ok]

theorem payloadOf_failsOnly :
    FailsOnly Failure.IsPackFetch (payloadOf host lock i region) ↔ Caught host lock i region := by
  unfold payloadOf Caught
  cases hspec : lock.spec region with
  | none => exact iff_of_false (fun h => isPackFetch_raised (failsOnly_error.mp h)) (by simp)
  | some spec => simp [verifiedPayload_failsOnly]

/-- **A payload that is to be installed is verified.** -/
theorem Gives.verified {payload : Node} (h : Gives host lock i region payload) :
    Verified host lock region payload := by
  obtain ⟨spec, hspec, hgives⟩ := h
  obtain ⟨extracted, hunpack, hget⟩ := hgives.unpack
  exact ⟨i, spec, extracted, hspec, hgives.download, hunpack, hget⟩

/-- It has a manifest. -/
theorem Gives.isPresent {payload : Node} (h : Gives host lock i region payload) :
    isPresent (some payload) = true :=
  have ⟨_, _, hgives⟩ := h
  hgives.manifest

end Payload

theorem osReplace_eq_none {refused : Option Raised} {target : Option Node} :
    osReplace refused target = none ↔ refused = none ∧ Vacant target := by
  unfold osReplace Vacant
  split <;> simp

/-- A directory with a manifest is not empty. -/
theorem not_vacant_of_isPresent {target : Option Node} (h : isPresent target = true) :
    ¬ Vacant target := by
  rintro (rfl | rfl)
  · exact absurd h (by simp [isPresent])
  · exact absurd h (by simp [isPresent, dictGet_nil])

/-! ## The loop -/

section Loop

variable {host : Host} {lock : PacksLock}

theorem fetchOne_eq {spec : PackSpec} {i : ℕ} {region : String} {disk : Disk}
    (hspec : lock.spec region = some spec) :
    fetchOne lock spec (host.attempt i) disk = (payloadOf host lock i region).bind fun payload =>
      (orRaise (osReplace (host.attempt i).rename (disk region))).map fun _ =>
        Function.update disk region (some payload) := by
  obtain rfl := spec_region hspec
  have hpay : payloadOf host lock i spec.region = verifiedPayload lock spec (host.attempt i) := by
    unfold payloadOf
    rw [hspec]
  unfold fetchOne
  rw [hpay]
  cases verifiedPayload lock spec (host.attempt i) with
  | error e => rfl
  | ok payload =>
    rw [ok_bind]
    cases orRaise (osReplace (host.attempt i).rename (disk spec.region)) <;> rfl

/-- A download that gives nothing ends the loop. -/
theorem fetchAll_error {region : String} {rest : List String} {i : ℕ} {disk : Disk} {e : Failure}
    (h : payloadOf host lock i region = .error e) :
    fetchAll host lock (region :: rest) i disk = (.error e, disk) := by
  unfold fetchAll
  cases hspec : lock.spec region with
  | none =>
    unfold payloadOf at h
    rw [hspec] at h
    rw [← Except.error.inj h]
  | some spec =>
    simp only
    rw [fetchOne_eq hspec, h]
    rfl

/-- A payload that does not find its place ends the loop. -/
theorem fetchAll_blocked {region : String} {rest : List String} {i : ℕ} {disk : Disk}
    {payload : Node} (h : payloadOf host lock i region = .ok payload) {e : Raised}
    (hreplace : osReplace (host.attempt i).rename (disk region) = some e) :
    fetchAll host lock (region :: rest) i disk = (.error (.raised e), disk) := by
  unfold fetchAll
  cases hspec : lock.spec region with
  | none =>
    unfold payloadOf at h
    rw [hspec] at h
    exact absurd h (by simp)
  | some spec =>
    simp only
    rw [fetchOne_eq hspec, h, hreplace]
    rfl

/-- A payload that is installed lets the loop go on. -/
theorem fetchAll_install {region : String} {rest : List String} {i : ℕ} {disk : Disk}
    {payload : Node} (h : payloadOf host lock i region = .ok payload)
    (hreplace : osReplace (host.attempt i).rename (disk region) = none) :
    fetchAll host lock (region :: rest) i disk =
      fetchAll host lock rest (i + 1) (Function.update disk region (some payload)) := by
  conv_lhs => unfold fetchAll
  cases hspec : lock.spec region with
  | none =>
    unfold payloadOf at h
    rw [hspec] at h
    exact absurd h (by simp)
  | some spec =>
    simp only
    rw [fetchOne_eq hspec, h, hreplace]
    rfl

/-- What a loop over `missing` leaves at `region`. -/
def Kept (host : Host) (lock : PacksLock) (missing : List String) (disk disk' : Disk)
    (region : String) : Prop :=
  disk' region = disk region ∨ region ∈ missing ∧ Vacant (disk region) ∧
    ∃ node, disk' region = some node ∧ isPresent (some node) = true ∧
      Verified host lock region node

/-- **The loop installs verified payloads in vacant places**, and nothing else. -/
theorem fetchAll_keeps (missing : List String) (i : ℕ) (disk : Disk) (region : String) :
    Kept host lock missing disk (fetchAll host lock missing i disk).2 region := by
  induction missing generalizing i disk with
  | nil => exact Or.inl rfl
  | cons r rest ih =>
    cases hpay : payloadOf host lock i r with
    | error e =>
      rw [fetchAll_error hpay]
      exact Or.inl rfl
    | ok payload =>
      cases hrep : osReplace (host.attempt i).rename (disk r) with
      | some e =>
        rw [fetchAll_blocked hpay hrep]
        exact Or.inl rfl
      | none =>
        rw [fetchAll_install hpay hrep]
        have hgives := payloadOf_eq_ok.mp hpay
        have hpresent := hgives.isPresent
        have hvacant := (osReplace_eq_none.mp hrep).2
        by_cases hr : region = r
        · subst hr
          -- what was installed is not vacant, so it stays
          refine Or.inr ⟨List.mem_cons_self, hvacant, payload, ?_, hpresent, hgives.verified⟩
          rcases ih (i + 1) (Function.update disk region (some payload)) with heq | ⟨-, hv, -⟩
          · rw [heq, Function.update_self]
          · rw [Function.update_self] at hv
            exact absurd hv (not_vacant_of_isPresent hpresent)
        · rcases ih (i + 1) (Function.update disk r (some payload)) with heq | ⟨hmem, hv, hnode⟩
          · rw [Function.update_of_ne hr] at heq
            exact Or.inl heq
          · rw [Function.update_of_ne hr] at hv
            exact Or.inr ⟨List.mem_cons_of_mem r hmem, hv, hnode⟩

theorem Kept.isPresent {missing : List String} {disk disk' : Disk} {region : String}
    (h : Kept host lock missing disk disk' region) (hp : isPresent (disk region) = true) :
    disk' region = disk region :=
  h.resolve_right fun hr => not_vacant_of_isPresent hp hr.2.1

/-- A loop that ends normally has every region. -/
theorem fetchAll_ok {missing : List String} {i : ℕ} {disk : Disk}
    (h : (fetchAll host lock missing i disk).1 = .ok ()) {region : String}
    (hmem : region ∈ missing) :
    isPresent ((fetchAll host lock missing i disk).2 region) = true := by
  induction missing generalizing i disk with
  | nil => exact absurd hmem List.not_mem_nil
  | cons r rest ih =>
    cases hpay : payloadOf host lock i r with
    | error e =>
      rw [fetchAll_error hpay] at h
      exact absurd h (by simp)
    | ok payload =>
      cases hrep : osReplace (host.attempt i).rename (disk r) with
      | some e =>
        rw [fetchAll_blocked hpay hrep] at h
        exact absurd h (by simp)
      | none =>
        rw [fetchAll_install hpay hrep] at h ⊢
        rcases List.mem_cons.mp hmem with rfl | hmem
        · have hpresent : isPresent (Function.update disk region (some payload) region) = true := by
            rw [Function.update_self]
            exact (payloadOf_eq_ok.mp hpay).isPresent
          rw [(fetchAll_keeps rest (i + 1) _ region).isPresent hpresent]
          exact hpresent
        · exact ih h hmem

/-- The downloads before the `k`-th of `missing` gave their payloads. -/
def Reached (host : Host) (lock : PacksLock) (missing : List String) (i k : ℕ) : Prop :=
  ∀ j r, j < k → missing[j]? = some r → ∃ payload, Gives host lock (i + j) r payload

/-- What keeps a loop from raising anything but a `PackFetchError`: what a download raises is
caught, and every payload finds its place. -/
structure Fetchable (host : Host) (lock : PacksLock) (missing : List String) (i : ℕ)
    (disk : Disk) : Prop where
  caught : ∀ k r, missing[k]? = some r → Reached host lock missing i k →
    Caught host lock (i + k) r
  placed : ∀ k r payload, missing[k]? = some r → Reached host lock missing i k →
    Gives host lock (i + k) r payload →
      (host.attempt (i + k)).rename = none ∧ Vacant (disk r) ∧ r ∉ missing.take k

theorem reached_succ {r : String} {rest : List String} {i k : ℕ} {payload : Node}
    (hgives : Gives host lock i r payload) :
    Reached host lock (r :: rest) i (k + 1) ↔ Reached host lock rest (i + 1) k := by
  have hshift : ∀ j, i + 1 + j = i + (j + 1) := fun j => by omega
  constructor
  · intro h j r' hj hr'
    rw [hshift]
    exact h (j + 1) r' (by omega) hr'
  · intro h j r' hj hr'
    cases j with
    | zero =>
      obtain rfl : r = r' := Option.some.inj hr'
      exact ⟨payload, hgives⟩
    | succ j =>
      rw [← hshift]
      exact h j r' (by omega) hr'

/-- One download more. -/
theorem fetchable_cons {r : String} {rest : List String} {i : ℕ} {disk : Disk} {payload : Node}
    (hgives : Gives host lock i r payload) :
    Fetchable host lock (r :: rest) i disk ↔ Caught host lock i r ∧
      osReplace (host.attempt i).rename (disk r) = none ∧
        Fetchable host lock rest (i + 1) (Function.update disk r (some payload)) := by
  have hshift : ∀ k, i + 1 + k = i + (k + 1) := fun k => by omega
  have hnow : Reached host lock (r :: rest) i 0 := fun j _ hj => absurd hj (Nat.not_lt_zero j)
  have hvac : ∀ r', Vacant (Function.update disk r (some payload) r') ↔
      r' ≠ r ∧ Vacant (disk r') := by
    intro r'
    by_cases hr : r' = r
    · subst hr
      rw [Function.update_self]
      exact iff_of_false (not_vacant_of_isPresent hgives.isPresent) fun h => h.1 rfl
    · rw [Function.update_of_ne hr]
      exact (and_iff_right hr).symm
  constructor
  · intro h
    obtain ⟨hren, hv, -⟩ := h.placed 0 r payload rfl hnow hgives
    refine ⟨h.caught 0 r rfl hnow, osReplace_eq_none.mpr ⟨hren, hv⟩, fun k r' hk hreach => ?_,
      fun k r' p hk hreach hp => ?_⟩
    · rw [hshift]
      exact h.caught (k + 1) r' hk ((reached_succ hgives).mpr hreach)
    · rw [hshift] at hp ⊢
      obtain ⟨hren', hv', hnot⟩ := h.placed (k + 1) r' p hk ((reached_succ hgives).mpr hreach) hp
      rw [List.take_succ_cons, List.mem_cons, not_or] at hnot
      exact ⟨hren', (hvac r').mpr ⟨hnot.1, hv'⟩, hnot.2⟩
  · rintro ⟨hcaught, hrep, h⟩
    refine ⟨fun k r' hk hreach => ?_, fun k r' p hk hreach hp => ?_⟩
    · cases k with
      | zero =>
        obtain rfl : r = r' := Option.some.inj hk
        exact hcaught
      | succ k =>
        rw [← hshift]
        exact h.caught k r' hk ((reached_succ hgives).mp hreach)
    · cases k with
      | zero =>
        obtain rfl : r = r' := Option.some.inj hk
        obtain ⟨hren, hv⟩ := osReplace_eq_none.mp hrep
        exact ⟨hren, hv, List.not_mem_nil⟩
      | succ k =>
        rw [← hshift] at hp ⊢
        obtain ⟨hren, hv, hnot⟩ := h.placed k r' p hk ((reached_succ hgives).mp hreach) hp
        obtain ⟨hne, hv⟩ := (hvac r').mp hv
        refine ⟨hren, hv, ?_⟩
        rw [List.take_succ_cons, List.mem_cons, not_or]
        exact ⟨hne, hnot⟩

/-- A download that gives no payload is the last one. -/
theorem fetchable_last {r : String} {rest : List String} {i : ℕ} {disk : Disk}
    (hnone : ∀ payload, ¬ Gives host lock i r payload) :
    Fetchable host lock (r :: rest) i disk ↔ Caught host lock i r := by
  have hnow : Reached host lock (r :: rest) i 0 := fun j _ hj => absurd hj (Nat.not_lt_zero j)
  have hstop : ∀ k, ¬ Reached host lock (r :: rest) i (k + 1) := by
    intro k h
    obtain ⟨payload, hgives⟩ := h 0 r (Nat.succ_pos k) rfl
    exact hnone payload hgives
  refine ⟨fun h => h.caught 0 r rfl hnow, fun h => ⟨fun k r' hk hreach => ?_,
    fun k r' payload hk hreach hgives => ?_⟩⟩
  · cases k with
    | zero =>
      obtain rfl : r = r' := Option.some.inj hk
      exact h
    | succ k => exact absurd hreach (hstop k)
  · cases k with
    | zero =>
      obtain rfl : r = r' := Option.some.inj hk
      exact absurd hgives (hnone payload)
    | succ k => exact absurd hreach (hstop k)

/-- **When the loop raises nothing but a `PackFetchError`.** -/
theorem fetchAll_failsOnly (missing : List String) (i : ℕ) (disk : Disk) :
    FailsOnly Failure.IsPackFetch (fetchAll host lock missing i disk).1 ↔
      Fetchable host lock missing i disk := by
  induction missing generalizing i disk with
  | nil =>
    refine iff_of_true failsOnly_ok ⟨?_, ?_⟩
    · exact fun k r hk => absurd hk (by simp)
    · exact fun k r payload hk => absurd hk (by simp)
  | cons r rest ih =>
    have hcaught : FailsOnly Failure.IsPackFetch (payloadOf host lock i r) ↔
        Caught host lock i r := payloadOf_failsOnly
    cases hpay : payloadOf host lock i r with
    | error e =>
      rw [hpay] at hcaught
      rw [fetchAll_error hpay, fetchable_last fun payload hgives => ?_, ← hcaught]
      · exact failsOnly_error.trans failsOnly_error.symm
      · exact absurd (hpay.symm.trans (payloadOf_eq_ok.mpr hgives)) (by simp)
    | ok payload =>
      rw [hpay] at hcaught
      rw [fetchable_cons (payloadOf_eq_ok.mp hpay), and_iff_right (hcaught.mp failsOnly_ok)]
      cases hrep : osReplace (host.attempt i).rename (disk r) with
      | some e =>
        rw [fetchAll_blocked hpay hrep]
        exact iff_of_false (fun h => isPackFetch_raised (failsOnly_error.mp h)) (by simp)
      | none =>
        rw [fetchAll_install hpay hrep, ih]
        exact (and_iff_right rfl).symm

end Loop

end RoutePlanner.Api
