import Mathlib.Order.Basic
import RoutePlanner.Api.Registry

/-!
# `web/lib/coverage.ts`: which pack a point belongs to, as the client sees it

The client looks points up in the packs that `/meta` lists, to refuse a request that the server
would refuse.

* `packFor_preflight`: on a list that `validate_coverage` accepts, the server's answer does not
  depend on the order, says which packs hold the two points, and is the one that the client's
  message gives.
-/

namespace RoutePlanner.Web

open RoutePlanner.Api

/-! ## The client -/

/-- `ServedPack`, as far as a point is looked up in it. -/
structure ServedPack (K : Type) where
  region : String
  bbox : Option (List K)

/-- `regionLabel`. -/
def regionLabel (region : String) : String := region.map fun c => if c = '_' then ' ' else c

variable {K : Type}

/-- `coverageLabel`. -/
def coverageLabel (packs : List (ServedPack K)) : String :=
  ", ".intercalate (packs.map fun p => regionLabel p.region)

variable [LE K] [DecidableLE K]

/-- `bboxContains`. -/
def bboxContains (bbox : Option (List K)) (p : Point K) : Bool :=
  match bbox with
  | some [west, south, east, north] =>
    decide (p.lat ≥ south ∧ p.lat ≤ north ∧ p.lon ≥ west ∧ p.lon ≤ east)
  | _ => true

/-- `packForPoint`. -/
def packForPoint (packs : List (ServedPack K)) (p : Point K) : Option (ServedPack K) :=
  packs.find? fun pack => bboxContains pack.bbox p

/-- `preflight`. -/
def preflight (packs : List (ServedPack K)) (origin destination : Point K) : Option String :=
  if packs.length = 0 then none
  else
    match packForPoint packs origin with
    | none =>
      some ("The starting point is outside the mapped area (" ++ coverageLabel packs ++ ").")
    | some o =>
      match packForPoint packs destination with
      | none =>
        some ("The destination is outside the mapped area (" ++ coverageLabel packs ++ ").")
      | some d =>
        if o.region ≠ d.region then
          some ("The starting point is in " ++ regionLabel o.region ++ " and the destination in " ++
            regionLabel d.region ++ "; routing between different regions isn't supported.")
        else none

/-! ## The client and the server -/

/-- The packs as `/meta` lists them. -/
def listed (packs : List (Pack K)) : List (ServedPack K) :=
  packs.map fun p => ⟨p.name, p.bbox⟩

/-- The client's message for each of the server's answers. -/
def message (packs : List (Pack K)) : Selection → Option String
  | .pack _ => none
  | .originOutside => some ("The starting point is outside the mapped area (" ++
      coverageLabel (listed packs) ++ ").")
  | .destinationOutside => some ("The destination is outside the mapped area (" ++
      coverageLabel (listed packs) ++ ").")
  | .differentPacks o d => some ("The starting point is in " ++ regionLabel o ++
      " and the destination in " ++ regionLabel d ++
      "; routing between different regions isn't supported.")

omit [LE K] [DecidableLE K] in
theorem message_eq_none_iff (packs : List (Pack K)) (answer : Selection) :
    message packs answer = none ↔ ∃ name, answer = .pack name := by
  cases answer <;> simp [message]

/-- Both look a box up in the same way, if it can be read. -/
theorem bboxContains_eq {bbox : Option (List K)} {point : Point K} {b : Bool}
    (h : Api.bboxContains bbox point = .ok b) : bboxContains bbox point = b := by
  unfold Api.bboxContains at h
  split at h
  · cases h
    rfl
  · cases h
    rfl
  · cases h

/-- The client finds the pack that the server does. -/
theorem region_packForPoint {packs : List (Pack K)} {point : Point K} {found : Option String}
    (h : owner packs point = .ok found) :
    (packForPoint (listed packs) point).map ServedPack.region = found := by
  induction packs with
  | nil =>
    cases h
    rfl
  | cons pack packs ih =>
    rw [owner] at h
    cases hb : Api.bboxContains pack.bbox point with
    | error e =>
      rw [hb] at h
      cases h
    | ok b =>
      have hsame := bboxContains_eq hb
      rw [hb] at h
      cases b with
      | true =>
        cases h
        simp [packForPoint, listed, hsame]
      | false =>
        have hrest := ih h
        simpa [packForPoint, listed, hsame] using hrest

/-- **The client agrees**: its message is the one of the server's answer. -/
theorem preflight_eq_message {packs : List (Pack K)} (hne : packs ≠ [])
    {origin destination : Point K} {answer : Selection}
    (h : packFor packs origin destination = .ok answer) :
    preflight (listed packs) origin destination = message packs answer := by
  have hlen : (listed packs).length ≠ 0 := by simpa [listed] using hne
  rw [preflight, if_neg hlen]
  cases ho : owner packs origin with
  | error e =>
    rw [packFor, ho] at h
    cases h
  | ok o =>
    have hfo := region_packForPoint ho
    rw [packFor, ho] at h
    cases hpo : packForPoint (listed packs) origin with
    | none =>
      rw [hpo] at hfo
      subst hfo
      cases h
      rfl
    | some po =>
      rw [hpo] at hfo
      subst hfo
      cases hd : owner packs destination with
      | error e =>
        simp only [bind, Except.bind, Option.map_some, hd] at h
        cases h
      | ok d =>
        have hfd := region_packForPoint hd
        simp only [bind, Except.bind, Option.map_some, hd] at h
        cases hpd : packForPoint (listed packs) destination with
        | none =>
          rw [hpd] at hfd
          subst hfd
          cases h
          rfl
        | some pd =>
          rw [hpd] at hfd
          subst hfd
          simp only [Option.map_some] at h
          by_cases hregion : po.region ≠ pd.region
          · rw [if_pos hregion] at h
            cases h
            simp only [if_pos hregion]
            rfl
          · rw [if_neg hregion] at h
            cases h
            simp only [if_neg hregion]
            rfl

variable [LT K] [DecidableLT K]

/-- **Pack selection.** On a served list that the startup check accepts, the answer is the same in
every order. It is a name when exactly one pack holds both points, and otherwise says which point
lies in no pack, or which two packs, the only ones, hold them. The client refuses just when the
server does, for the same reason. -/
theorem packFor_preflight {packs : List (Pack K)} (hne : packs ≠ [])
    (htrans : ∀ a b c : K, a ≤ b → b ≤ c → a ≤ c) (hvalid : validateCoverage packs = .ok ())
    (origin destination : Point K) :
    ∃ answer, (∀ packs', packs'.Perm packs → packFor packs' origin destination = .ok answer) ∧
      ((∃ name, answer = .pack name) ↔
        ∃! pack, pack ∈ packs ∧ pack.Covers origin ∧ pack.Covers destination) ∧
      (∀ pack ∈ packs, pack.Covers origin → pack.Covers destination →
        answer = .pack pack.name) ∧
      (answer = .originOutside ↔ ∀ pack ∈ packs, ¬pack.Covers origin) ∧
      (answer = .destinationOutside ↔
        (∃ pack ∈ packs, pack.Covers origin) ∧ ∀ pack ∈ packs, ¬pack.Covers destination) ∧
      (∀ o d, answer = .differentPacks o d ↔ ∃ a b, a ≠ b ∧ a.name = o ∧ b.name = d ∧
        (∀ pack, pack ∈ packs ∧ pack.Covers origin ↔ pack = a) ∧
        ∀ pack, pack ∈ packs ∧ pack.Covers destination ↔ pack = b) ∧
      preflight (listed packs) origin destination = message packs answer ∧
      (preflight (listed packs) origin destination = none ↔ ∃ name, answer = .pack name) := by
  have h := valid_of_validateCoverage htrans hvalid
  obtain ⟨answer, hanswer, hselected⟩ := packFor_spec h origin destination
  have hiff : ∀ s, answer = s ↔ Selected packs origin destination s := fun s =>
    ⟨fun heq => heq ▸ hselected, fun hs => hselected.unique h hs⟩
  have hclient := preflight_eq_message hne hanswer
  have hsole : ∀ {pack : Pack K} {point : Point K}, pack ∈ packs → pack.Covers point →
      ∀ other, other ∈ packs ∧ other.Covers point ↔ other = pack := by
    intro pack point hpack hcovers other
    exact ⟨fun ⟨hother, hco⟩ => h.disjoint other hother pack hpack point hco hcovers,
      fun heq => heq ▸ ⟨hpack, hcovers⟩⟩
  refine ⟨answer, fun packs' hperm => ?_, ?_, fun pack hpack ho hd => ?_, hiff _, hiff _,
    fun o d => ?_, hclient, ?_⟩
  · -- The permuted list is valid too, and the same is so of it.
    obtain ⟨answer', hanswer', hselected'⟩ := packFor_spec (h.perm hperm) origin destination
    rw [hanswer', (hselected'.perm hperm).unique h hselected]
  · constructor
    · rintro ⟨name, rfl⟩
      obtain ⟨pack, hpack, -, ho, hd⟩ := hselected
      exact ⟨pack, ⟨hpack, ho, hd⟩, fun other hother =>
        (hsole hpack ho other).mp ⟨hother.1, hother.2.1⟩⟩
    · rintro ⟨pack, ⟨hpack, ho, hd⟩, -⟩
      exact ⟨pack.name, (hiff _).mpr ⟨pack, hpack, rfl, ho, hd⟩⟩
  · exact (hiff _).mpr ⟨pack, hpack, rfl, ho, hd⟩
  · rw [hiff]
    constructor
    · rintro ⟨a, ha, b, hb, hab, rfl, rfl, hao, hbd⟩
      exact ⟨a, b, hab, rfl, rfl, hsole ha hao, hsole hb hbd⟩
    · rintro ⟨a, b, hab, rfl, rfl, ha, hb⟩
      obtain ⟨hamem, hao⟩ := (ha a).mpr rfl
      obtain ⟨hbmem, hbd⟩ := (hb b).mpr rfl
      exact ⟨a, hamem, b, hbmem, hab, rfl, rfl, hao, hbd⟩
  · rw [hclient, message_eq_none_iff]

/-- Two packs with a gap between them, in either order. -/
theorem packFor_preflight_two_packs :
    packFor [⟨"b", some [2, 0, 3, 1]⟩, ⟨"a", some [0, 0, 1, 1]⟩] (⟨0, 1⟩ : Point ℤ) ⟨1, 2⟩ =
      packFor [⟨"a", some [0, 0, 1, 1]⟩, ⟨"b", some [2, 0, 3, 1]⟩] (⟨0, 1⟩ : Point ℤ) ⟨1, 2⟩ := by
  have hvalid : validateCoverage [⟨"a", some [0, 0, 1, 1]⟩, ⟨"b", some [2, 0, 3, (1 : ℤ)]⟩] =
      .ok () := by
    rw [validateCoverage_ok_iff]
    exact ⟨by decide, by simp, by simp [Pack.WellFormed, checkBBox], by decide⟩
  obtain ⟨answer, hperm, -⟩ := packFor_preflight
    (List.cons_ne_nil ⟨"a", some [0, 0, 1, 1]⟩ [⟨"b", some [2, 0, 3, 1]⟩])
    (fun _ _ _ => Int.le_trans) hvalid (⟨0, 1⟩ : Point ℤ) ⟨1, 2⟩
  rw [hperm _ (List.Perm.swap _ _ _), hperm _ (List.Perm.refl _)]

end RoutePlanner.Web
