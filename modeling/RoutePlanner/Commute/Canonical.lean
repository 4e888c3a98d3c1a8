import Mathlib.Data.String.Basic
import RoutePlanner.Commute.Loads

/-!
# The canonical text of a JSON value

What `canonical_json` writes, `json.loads` reads back. The value comes back with the keys of its
objects in order, so two values have one canonical text just when they agree up to that order.

* `FloatText`: what the library promises of `repr` and `float`.
* `scanOnce_chars`: the decoder reads a canonical text up to its end, whatever follows.
* `loads_canonicalJson`, `canonicalJson_sorted`: the text is read back, and does not depend on the
  order of the keys.
* **`canonical_json_round_trip`**: the two together, and that a text has one content.
-/

namespace RoutePlanner.Commute

open RoutePlanner.Lib

variable {K : Type}

/-! ## Numbers -/

/-- `0|[1-9][0-9]*`. -/
structure IsNatural (ds : List Char) : Prop where
  ne_nil : ds ≠ []
  digits : ∀ c ∈ ds, c.isDigit
  leading : ds.head? = some '0' → ds = ['0']

/-- `-?(0|[1-9][0-9]*)`. -/
def IsInteger (s : List Char) : Prop := ∃ ds, IsNatural ds ∧ (s = ds ∨ s = '-' :: ds)

/-- `\.[0-9]+`. -/
def IsFrac (s : List Char) : Prop := ∃ ds, ds ≠ [] ∧ (∀ c ∈ ds, c.isDigit) ∧ s = '.' :: ds

/-- `[eE][-+]?[0-9]+`. -/
def IsExp (s : List Char) : Prop :=
  ∃ e sign ds, (e = 'e' ∨ e = 'E') ∧ (sign = [] ∨ sign = ['-'] ∨ sign = ['+']) ∧ ds ≠ [] ∧
    (∀ c ∈ ds, c.isDigit) ∧ s = e :: (sign ++ ds)

/-- **What the library promises of a finite float**: `repr` writes it with a fraction or an
exponent, and `float` reads it back. -/
structure FloatText (floatRepr : K → String) (parseFloat : String → K) : Prop where
  inverse : ∀ x, parseFloat (floatRepr x) = x
  shape : ∀ x, ∃ integer frac exp, (floatRepr x).toList = integer ++ (frac ++ exp) ∧
    IsInteger integer ∧ (frac = [] ∨ IsFrac frac) ∧ (exp = [] ∨ IsExp exp) ∧
    ¬ (frac = [] ∧ exp = [])

/-- What may follow a value in a canonical text. -/
def Stops (rest : List Char) : Prop := ∀ c ∈ rest.head?, c = ',' ∨ c = ']' ∨ c = '\x7d'

section Numbers

variable {rest ds s : List Char}

theorem Stops.notDigit (h : Stops rest) : ∀ c ∈ rest.head?, c.isDigit = false := by
  intro c hc
  rcases h c hc with rfl | rfl | rfl <;> decide

theorem scanDigits_append (hds : ∀ c ∈ ds, c.isDigit)
    (hrest : ∀ c ∈ rest.head?, c.isDigit = false) : scanDigits (ds ++ rest) = (ds, rest) := by
  have hnone : rest.takeWhile Char.isDigit = [] ∧ rest.dropWhile Char.isDigit = rest := by
    cases rest with
    | nil => exact ⟨rfl, rfl⟩
    | cons c rest =>
      have hc := hrest c rfl
      exact ⟨List.takeWhile_cons_of_neg (by simp [hc]), List.dropWhile_cons_of_neg (by simp [hc])⟩
  unfold scanDigits
  rw [List.takeWhile_append_of_pos hds, List.dropWhile_append_of_pos hds, hnone.1, hnone.2,
    List.append_nil]

theorem scanNatural_append (h : IsNatural ds) (hrest : ∀ c ∈ rest.head?, c.isDigit = false) :
    scanNatural (ds ++ rest) = some (ds, rest) := by
  obtain ⟨hne, hdigits, hlead⟩ := h
  cases ds with
  | nil => exact absurd rfl hne
  | cons c ds =>
    obtain ⟨hc, hds⟩ := List.forall_mem_cons.mp hdigits
    rw [List.cons_append, scanNatural]
    split_ifs with h0
    · obtain rfl : ds = [] := (List.cons.inj (hlead (congrArg some h0))).2
      rfl
    · rw [scanDigits_append hds hrest]

theorem scanInteger_append (h : IsInteger s) (hrest : ∀ c ∈ rest.head?, c.isDigit = false) :
    scanInteger (s ++ rest) = some (s, rest) := by
  obtain ⟨ds, hds, rfl | rfl⟩ := h
  · have hsign : (s ++ rest).head? ≠ some '-' := by
      obtain ⟨c, ds, rfl⟩ := List.exists_cons_of_ne_nil hds.ne_nil
      rintro heq
      have := hds.digits c List.mem_cons_self
      rw [Option.some.inj heq] at this
      exact absurd this (by decide)
    unfold scanInteger
    rw [if_neg hsign, scanNatural_append hds hrest]
  · unfold scanInteger
    rw [List.cons_append, List.head?_cons, if_pos rfl, List.tail_cons,
      scanNatural_append hds hrest]
    rfl

theorem scanFrac_append (h : IsFrac s) (hrest : ∀ c ∈ rest.head?, c.isDigit = false) :
    scanFrac (s ++ rest) = (s, rest) := by
  obtain ⟨ds, hne, hds, rfl⟩ := h
  unfold scanFrac
  rw [List.cons_append, List.tail_cons, scanDigits_append hds hrest]
  exact if_pos ⟨rfl, hne⟩

theorem scanFrac_of_head (h : s.head? ≠ some '.') : scanFrac s = ([], s) :=
  if_neg fun hs => h hs.1

theorem scanSign_append {sign : List Char} (hsign : sign = [] ∨ sign = ['-'] ∨ sign = ['+'])
    (hne : ds ≠ []) (hds : ∀ c ∈ ds, c.isDigit) :
    scanSign (sign ++ (ds ++ rest)) = (sign, ds ++ rest) := by
  rcases hsign with rfl | rfl | rfl
  · obtain ⟨c, ds, rfl⟩ := List.exists_cons_of_ne_nil hne
    have hc := hds c List.mem_cons_self
    refine if_neg ?_
    rintro (heq | heq) <;> rw [Option.some.inj heq] at hc <;> exact absurd hc (by decide)
  · rfl
  · rfl

theorem scanExp_append (h : IsExp s) (hrest : ∀ c ∈ rest.head?, c.isDigit = false) :
    scanExp (s ++ rest) = (s, rest) := by
  obtain ⟨e, sign, ds, he, hsign, hne, hds, rfl⟩ := h
  unfold scanExp
  rw [List.cons_append, List.tail_cons, List.append_assoc, scanSign_append hsign hne hds]
  simp only [scanDigits_append hds hrest]
  refine (if_pos ⟨?_, hne⟩).trans rfl
  exact he.imp (congrArg some) (congrArg some)

theorem scanExp_of_head (h : s.head? ≠ some 'e' ∧ s.head? ≠ some 'E') : scanExp s = ([], s) :=
  if_neg fun hs => hs.1.elim h.1 h.2

theorem isNatural_repr (m : ℕ) : IsNatural m.repr.toList := by
  have hhead : ∀ n : ℕ, (Nat.toDigits 10 n).head? = some '0' → n = 0 := by
    intro n
    induction n using Nat.strong_induction_on with
    | h n ih =>
      intro h
      rw [Nat.toDigits_eq_if (by decide)] at h
      split_ifs at h with hlt
      · exact Nat.digitChar_eq_zero.mp (Option.some.inj h)
      · rw [List.head?_append_of_ne_nil _ Nat.toDigits_ne_nil] at h
        have := ih (n / 10) (by omega) h
        omega
  rw [Nat.toList_repr]
  refine ⟨Nat.toDigits_ne_nil, fun c => Nat.isDigit_of_mem_toDigits (by decide) (by decide), ?_⟩
  intro h
  rw [hhead m h, Nat.toDigits_zero]

theorem isInteger_toString (n : ℤ) : IsInteger (toString n).toList := by
  rw [Int.toString_eq_repr, Int.repr_eq_if]
  split_ifs
  · exact ⟨_, isNatural_repr _, Or.inl rfl⟩
  · exact ⟨_, isNatural_repr _, Or.inr (by rw [String.toList_append]; rfl)⟩

theorem parseInt_toString (n : ℤ) : parseInt (toString n).toList = n := by
  have hnat : ∀ m : ℕ, Nat.ofDigitChars 10 m.repr.toList 0 = m := fun m => by
    rw [Nat.toList_repr, Nat.ofDigitChars_ten_toDigits]
  rw [Int.toString_eq_repr, Int.repr_eq_if]
  split_ifs with h
  · have hsign : n.toNat.repr.toList.head? ≠ some '-' := by
      intro heq
      have := (isNatural_repr n.toNat).digits '-' (List.mem_of_mem_head? heq)
      exact absurd this (by decide)
    unfold parseInt
    rw [if_neg hsign, hnat, Int.toNat_of_nonneg h]
  · have hneg : ("-" ++ (-n).toNat.repr).toList = '-' :: (-n).toNat.repr.toList := by
      rw [String.toList_append]
      rfl
    unfold parseInt
    rw [hneg, List.head?_cons, if_pos rfl, List.tail_cons, hnat]
    omega

theorem scanNumber_int {K : Type} (parseFloat : String → K) (n : ℤ) (hrest : Stops rest) :
    scanNumber parseFloat ((toString n).toList ++ rest) = some (.int n, rest) := by
  have hfrac : rest.head? ≠ some '.' := by
    intro h
    rcases hrest '.' h with h | h | h <;> exact absurd h (by decide)
  have hexp : rest.head? ≠ some 'e' ∧ rest.head? ≠ some 'E' := by
    constructor <;> intro h <;> rcases hrest _ h with h | h | h <;> exact absurd h (by decide)
  unfold scanNumber
  rw [scanInteger_append (isInteger_toString n) hrest.notDigit]
  simp only [Option.bind_eq_bind, Option.bind_some, scanFrac_of_head hfrac, scanExp_of_head hexp,
    and_self, if_true, parseInt_toString]
  rfl

theorem scanNumber_float {floatRepr : K → String} {parseFloat : String → K}
    (h : FloatText floatRepr parseFloat) (x : K) (hrest : Stops rest) :
    scanNumber parseFloat ((floatRepr x).toList ++ rest) = some (.float x, rest) := by
  obtain ⟨integer, frac, exp, htext, hint, hfrac, hexp, hne⟩ := h.shape x
  have hexp' : scanExp (exp ++ rest) = (exp, rest) := by
    rcases hexp with rfl | hexp
    · refine scanExp_of_head ?_
      constructor <;> intro h <;> rcases hrest _ h with h | h | h <;> exact absurd h (by decide)
    · exact scanExp_append hexp hrest.notDigit
  have hdigit : ∀ c ∈ (exp ++ rest).head?, c.isDigit = false ∧ c ≠ '.' := by
    rcases hexp with rfl | ⟨e, sign, ds, he, -, -, -, rfl⟩
    · intro c hc
      rcases hrest c hc with rfl | rfl | rfl <;> decide
    · intro c hc
      obtain rfl := Option.some.inj hc
      rcases he with rfl | rfl <;> decide
  have hfrac' : scanFrac (frac ++ (exp ++ rest)) = (frac, exp ++ rest) := by
    rcases hfrac with rfl | hfrac
    · exact scanFrac_of_head fun h => (hdigit '.' h).2 rfl
    · exact scanFrac_append hfrac fun c hc => (hdigit c hc).1
  have hint' : ∀ c ∈ (frac ++ (exp ++ rest)).head?, c.isDigit = false := by
    rcases hfrac with rfl | ⟨ds, -, -, rfl⟩
    · exact fun c hc => (hdigit c hc).1
    · intro c hc
      obtain rfl := Option.some.inj hc
      decide
  unfold scanNumber
  rw [htext, List.append_assoc, List.append_assoc, scanInteger_append hint hint']
  simp only [Option.bind_eq_bind, Option.bind_some, hfrac', hexp', if_neg hne]
  rw [List.append_assoc, ← htext, String.ofList_toList, h.inverse]
  rfl

end Numbers

/-! ## Strings -/

section Strings

theorem hexVal_digitChar : ∀ n < 16, hexVal (Nat.digitChar n) = some n := by decide

theorem scanUnicode_control {n : ℕ} (h : n < 0x20) (a b : Char) (ha : hexVal a = some (n / 16))
    (hb : hexVal b = some (n % 16)) (rest : List Char) :
    scanUnicode ('0' :: '0' :: a :: b :: rest) = some (Char.ofNat n, rest) := by
  have hchr : chr n = some (Char.ofNat n) := if_pos (Or.inl (by omega))
  have hdecode : decodeUXXXX ('0' :: '0' :: a :: b :: rest) = some (n, rest) := by
    simp only [decodeUXXXX, show hexVal '0' = some 0 from rfl, ha, hb, Option.bind_eq_bind,
      Option.bind_some, Option.pure_def, Option.some.injEq, Prod.mk.injEq, and_true]
    omega
  unfold scanUnicode
  rw [hdecode]
  simp only [Option.bind_eq_bind, Option.bind_some]
  rw [if_neg (by omega), hchr]
  rfl

/-- The ways a character is written. -/
theorem escapeChar_cases (c : Char) :
    (∃ e, (escapeChar c).toList = ['\\', e] ∧ e ≠ 'u' ∧ backslash e = some c) ∨
    (∃ a b, (escapeChar c).toList = ['\\', 'u', '0', '0', a, b] ∧ c.toNat < 0x20 ∧
      hexVal a = some (c.toNat / 16) ∧ hexVal b = some (c.toNat % 16)) ∨
    ((escapeChar c).toList = [c] ∧ c ≠ '"' ∧ c ≠ '\\' ∧ 0x20 ≤ c.toNat) := by
  have hchar : ∀ {n : ℕ}, c.toNat = n → Char.ofNat n = c := fun h => h ▸ Char.ofNat_toNat c
  have hletter : ∀ {n : ℕ} {e : Char}, c.toNat = n → e ≠ 'u' → backslash e = some (Char.ofNat n) →
      ∃ e', ['\\', e] = ['\\', e'] ∧ e' ≠ 'u' ∧ backslash e' = some c :=
    fun hn hu he => ⟨_, rfl, hu, he.trans (congrArg some (hchar hn))⟩
  unfold escapeChar
  by_cases h1 : c.toNat = 0x22
  · rw [if_pos h1]
    exact Or.inl (hletter h1 (by decide) rfl)
  rw [if_neg h1]
  by_cases h2 : c.toNat = 0x5c
  · rw [if_pos h2]
    exact Or.inl (hletter h2 (by decide) rfl)
  rw [if_neg h2]
  by_cases h3 : c.toNat = 0x0a
  · rw [if_pos h3]
    exact Or.inl (hletter h3 (by decide) rfl)
  rw [if_neg h3]
  by_cases h4 : c.toNat = 0x0d
  · rw [if_pos h4]
    exact Or.inl (hletter h4 (by decide) rfl)
  rw [if_neg h4]
  by_cases h5 : c.toNat = 0x09
  · rw [if_pos h5]
    exact Or.inl (hletter h5 (by decide) rfl)
  rw [if_neg h5]
  by_cases h6 : c.toNat = 0x0c
  · rw [if_pos h6]
    exact Or.inl (hletter h6 (by decide) rfl)
  rw [if_neg h6]
  by_cases h7 : c.toNat = 0x08
  · rw [if_pos h7]
    exact Or.inl (hletter h7 (by decide) rfl)
  rw [if_neg h7]
  by_cases h8 : c.toNat < 0x10
  · rw [if_pos h8]
    refine Or.inr (Or.inl ⟨'0', Nat.digitChar c.toNat, ?_, by omega, ?_, ?_⟩)
    · rw [Nat.toDigits_of_lt_base h8]
      simp only [String.toList_append, String.toList_ofList]
      rfl
    · rw [Nat.div_eq_of_lt h8]
      rfl
    · rw [Nat.mod_eq_of_lt h8, hexVal_digitChar _ h8]
  rw [if_neg h8]
  by_cases h9 : c.toNat < 0x20
  · rw [if_pos h9]
    refine Or.inr (Or.inl ⟨'1', Nat.digitChar (c.toNat % 16), ?_, h9, ?_,
      hexVal_digitChar _ (Nat.mod_lt _ (by decide))⟩)
    · rw [Nat.toDigits_of_base_le (by decide) (by omega), show c.toNat / 16 = 1 by omega]
      simp only [String.toList_append, String.toList_ofList]
      rfl
    · rw [show c.toNat / 16 = 1 by omega]
      rfl
  rw [if_neg h9]
  refine Or.inr (Or.inr ⟨String.toList_singleton c, ?_, ?_, by omega⟩)
  · rintro rfl
    exact h1 rfl
  · rintro rfl
    exact h2 rfl

/-- **An escape is one character again.** -/
theorem scanChar_escapeChar (c : Char) (rest : List Char) :
    scanChar ((escapeChar c).toList ++ rest) = some (c, rest) := by
  rcases escapeChar_cases c with ⟨e, h, hu, he⟩ | ⟨a, b, h, hlt, ha, hb⟩ | ⟨h, -, hne, hge⟩
  · rw [h]
    unfold scanChar
    simp only [List.cons_append, List.nil_append, if_true, if_neg hu, he, Option.map_some]
  · rw [h]
    unfold scanChar
    simp only [List.cons_append, List.nil_append, if_true]
    rw [scanUnicode_control hlt a b ha hb, Char.ofNat_toNat]
  · rw [h]
    unfold scanChar
    simp only [List.cons_append, List.nil_append]
    rw [if_neg hne, if_neg (by omega)]

theorem head_escapeChar (c : Char) (rest : List Char) :
    ((escapeChar c).toList ++ rest).head? ≠ some '"' := by
  rcases escapeChar_cases c with ⟨e, h, -⟩ | ⟨a, b, h, -⟩ | ⟨h, hne, -⟩
  · rw [h]
    simp
  · rw [h]
    simp
  · rw [h]
    simpa using hne

/-- A string is read up to its quote. -/
theorem scanString_escape {fuel : ℕ} {cs : List Char} (rest : List Char)
    (hfuel : cs.length < fuel) :
    scanString fuel (cs.flatMap (fun c => (escapeChar c).toList) ++ '"' :: rest) =
      some (cs, rest) := by
  induction cs generalizing fuel with
  | nil =>
    obtain ⟨fuel, rfl⟩ : ∃ k, fuel = k + 1 := ⟨fuel - 1, by omega⟩
    rfl
  | cons c cs ih =>
    obtain ⟨fuel, rfl⟩ : ∃ k, fuel = k + 1 := ⟨fuel - 1, by omega⟩
    rw [List.flatMap_cons, List.append_assoc, scanString, if_neg (head_escapeChar c _),
      scanChar_escapeChar]
    simp only [Option.bind_eq_bind, Option.bind_some, ih (Nat.lt_of_succ_lt_succ hfuel)]
    rfl

end Strings

/-! ## Values -/

section Values

variable {floatRepr : K → String} {parseFloat : String → K}

theorem canonicalItems_eq (items : List (Json K)) :
    canonicalItems floatRepr items = items.map (canonicalJson floatRepr) := by
  induction items with
  | nil => rfl
  | cons item items ih => rw [canonicalItems, ih, List.map_cons]

theorem canonicalFields_eq (fields : List (String × Json K)) :
    canonicalFields floatRepr fields = fields.map fun p => (p.1, canonicalJson floatRepr p.2) := by
  induction fields with
  | nil => rfl
  | cons p fields ih => rw [canonicalFields, ih, List.map_cons]

variable (floatRepr) in
/-- The characters of a canonical text. -/
def Json.chars (v : Json K) : List Char := (canonicalJson floatRepr v).toList

variable (floatRepr) in
/-- The characters of a field. -/
def fieldChars (p : String × Json K) : List Char :=
  (quote p.1).toList ++ ':' :: p.2.chars floatRepr

/-- The fields by their keys. -/
def byKey (fields : List (String × Json K)) : List (String × Json K) :=
  fields.insertionSort fun p q => p.1 ≤ q.1

/-- Sorting by the keys leaves the values alone. -/
theorem map_sorted_key {α : Type} (fields : List (String × Json K)) (f : Json K → α) :
    (fields.map fun p => (p.1, f p.2)).insertionSort (fun p q => p.1 ≤ q.1) =
      (byKey fields).map fun p => (p.1, f p.2) :=
  (List.map_insertionSort (fun p q : String × Json K => p.1 ≤ q.1)
    (fun p q : String × α => p.1 ≤ q.1) _ fields fun _ _ _ _ => Iff.rfl).symm

/-- Pieces with a comma between them. -/
def separated : List (List Char) → List Char
  | [] => []
  | piece :: pieces => piece ++ pieces.flatMap fun piece => ',' :: piece

theorem toList_intercalate_comma (pieces : List String) :
    (",".intercalate pieces).toList = separated (pieces.map String.toList) := by
  induction pieces with
  | nil => rfl
  | cons piece pieces ih =>
    cases pieces with
    | nil => simp [separated]
    | cons next pieces =>
      rw [String.intercalate_cons_cons, String.toList_append, String.toList_append, ih]
      simp [separated]

theorem quote_toList (s : String) :
    (quote s).toList = '"' :: (s.toList.flatMap (fun c => (escapeChar c).toList) ++ ['"']) := by
  unfold quote
  rw [String.toList_append, String.toList_append, String.toList_join, List.flatMap_map]
  rfl

theorem chars_null : (Json.null : Json K).chars floatRepr = ['n', 'u', 'l', 'l'] := by
  rw [Json.chars, canonicalJson]
  rfl

theorem chars_true : (Json.bool true : Json K).chars floatRepr = ['t', 'r', 'u', 'e'] := by
  rw [Json.chars, canonicalJson]
  rfl

theorem chars_false : (Json.bool false : Json K).chars floatRepr = ['f', 'a', 'l', 's', 'e'] := by
  rw [Json.chars, canonicalJson]
  rfl

theorem chars_int (n : ℤ) : (Json.int n : Json K).chars floatRepr = (toString n).toList := by
  rw [Json.chars, canonicalJson]

theorem chars_float (x : K) : (Json.float x).chars floatRepr = (floatRepr x).toList := by
  rw [Json.chars, canonicalJson]

theorem chars_str (s : String) : (Json.str s : Json K).chars floatRepr =
    '"' :: (s.toList.flatMap (fun c => (escapeChar c).toList) ++ ['"']) := by
  rw [Json.chars, canonicalJson, quote_toList]

theorem chars_arr (items : List (Json K)) :
    (Json.arr items).chars floatRepr =
      '[' :: (separated (items.map (Json.chars floatRepr)) ++ [']']) := by
  rw [Json.chars, canonicalJson, String.toList_append, String.toList_append,
    toList_intercalate_comma, canonicalItems_eq, List.map_map]
  rfl

theorem chars_obj (fields : List (String × Json K)) :
    (Json.obj fields).chars floatRepr =
      '\x7b' :: (separated ((byKey fields).map (fieldChars floatRepr)) ++ ['\x7d']) := by
  have hsort : (canonicalFields floatRepr fields).insertionSort (fun p q => p.1 ≤ q.1) =
      (byKey fields).map fun p => (p.1, canonicalJson floatRepr p.2) := by
    rw [canonicalFields_eq]
    exact map_sorted_key fields _
  rw [Json.chars, canonicalJson, String.toList_append, String.toList_append,
    toList_intercalate_comma, hsort, List.map_map, List.map_map]
  refine congrArg (fun pieces => '\x7b' :: (separated pieces ++ ['\x7d'])) ?_
  refine List.map_congr_left fun p _ => ?_
  simp only [Function.comp_apply, String.toList_append, fieldChars, Json.chars]
  rw [List.append_assoc]
  rfl

theorem sorted_obj (fields : List (String × Json K)) :
    (Json.obj fields).sorted = .obj ((byKey fields).map fun p => (p.1, p.2.sorted)) := by
  rw [Json.sorted, sortedFields_eq]
  exact congrArg Json.obj (map_sorted_key fields _)

theorem sorted_arr (items : List (Json K)) :
    (Json.arr items).sorted = .arr (items.map Json.sorted) := by
  rw [Json.sorted, sortedItems_eq]

/-- The first character of a value is not mistaken for anything else. -/
theorem head_chars (h : FloatText floatRepr parseFloat) (v : Json K) :
    ∃ c cs, v.chars floatRepr = c :: cs ∧ isJsonSpace c = false ∧ c ≠ ']' := by
  have hinteger : ∀ {s : List Char} (rest : List Char), IsInteger s →
      ∃ c cs, s ++ rest = c :: cs ∧ isJsonSpace c = false ∧ c ≠ ']' := by
    rintro s rest ⟨ds, hds, rfl | rfl⟩
    · obtain ⟨c, ds, rfl⟩ := List.exists_cons_of_ne_nil hds.ne_nil
      have hc := hds.digits c List.mem_cons_self
      refine ⟨c, ds ++ rest, rfl, ?_, ?_⟩
      · by_contra hspace
        simp only [isJsonSpace, Bool.not_eq_false, Bool.or_eq_true, beq_iff_eq] at hspace
        rcases hspace with ((rfl | rfl) | rfl) | rfl <;> exact absurd hc (by decide)
      · rintro rfl
        exact absurd hc (by decide)
    · exact ⟨'-', ds ++ rest, rfl, by decide, by decide⟩
  cases v with
  | null => exact ⟨'n', _, chars_null, by decide, by decide⟩
  | bool b =>
    cases b with
    | true => exact ⟨'t', _, chars_true, by decide, by decide⟩
    | false => exact ⟨'f', _, chars_false, by decide, by decide⟩
  | int n =>
    obtain ⟨c, cs, hc⟩ := hinteger [] (isInteger_toString n)
    rw [List.append_nil] at hc
    exact ⟨c, cs, (chars_int n).trans hc.1, hc.2⟩
  | float x =>
    obtain ⟨integer, frac, exp, htext, hint, -⟩ := h.shape x
    obtain ⟨c, cs, hc⟩ := hinteger (frac ++ exp) hint
    exact ⟨c, cs, (chars_float x).trans (htext.trans hc.1), hc.2⟩
  | str s => exact ⟨'"', _, chars_str s, by decide, by decide⟩
  | arr items => exact ⟨'[', _, chars_arr items, by decide, by decide⟩
  | obj fields => exact ⟨'\x7b', _, chars_obj fields, by decide, by decide⟩

theorem skipSpace_cons {c : Char} (hc : isJsonSpace c = false) (s : List Char) :
    skipSpace (c :: s) = c :: s :=
  List.dropWhile_cons_of_neg (by simp [hc])

theorem skipSpace_chars (h : FloatText floatRepr parseFloat) (v : Json K) (rest : List Char) :
    skipSpace (v.chars floatRepr ++ rest) = v.chars floatRepr ++ rest := by
  obtain ⟨c, cs, hchars, hc, -⟩ := head_chars h v
  rw [hchars, List.cons_append, skipSpace_cons hc]

/-- The decoder reads the text of a value up to its end. -/
def ReadsBack (floatRepr : K → String) (parseFloat : String → K) (v : Json K) : Prop :=
  ∀ {fuel : ℕ} {rest : List Char}, 2 * (v.chars floatRepr).length < fuel → Stops rest →
    scanOnce parseFloat fuel (v.chars floatRepr ++ rest) = some (v.sorted, rest)

theorem flatMap_comma (piece : List Char) (pieces : List (List Char)) :
    ((piece :: pieces).flatMap fun piece => ',' :: piece) = ',' :: separated (piece :: pieces) :=
  rfl

theorem stops_separated {close : Char} (hclose : close = ']' ∨ close = '\x7d')
    (pieces : List (List Char)) (rest : List Char) :
    Stops ((pieces.flatMap fun piece => ',' :: piece) ++ close :: rest) := by
  intro c hc
  cases pieces with
  | nil =>
    obtain rfl := Option.some.inj hc
    exact Or.inr hclose
  | cons piece pieces =>
    obtain rfl := Option.some.inj hc
    exact Or.inl rfl

theorem skipSpace_separated (h : FloatText floatRepr parseFloat) (item : Json K)
    (items : List (Json K)) (rest : List Char) :
    skipSpace (separated ((item :: items).map (Json.chars floatRepr)) ++ rest) =
      separated ((item :: items).map (Json.chars floatRepr)) ++ rest := by
  rw [List.map_cons, separated, List.append_assoc]
  exact skipSpace_chars h item _

/-- **The items of an array.** -/
theorem scanItems_chars (h : FloatText floatRepr parseFloat) {items : List (Json K)}
    (hitems : ∀ item ∈ items, ReadsBack floatRepr parseFloat item) (hne : items ≠ [])
    {fuel : ℕ} (hfuel : 2 * (separated (items.map (Json.chars floatRepr))).length + 1 < fuel)
    (before : List (Json K)) (rest : List Char) :
    scanItems parseFloat fuel before
        (separated (items.map (Json.chars floatRepr)) ++ ']' :: rest) =
      some (.arr (before ++ items.map Json.sorted), rest) := by
  induction items generalizing fuel before with
  | nil => exact absurd rfl hne
  | cons item items ih =>
    obtain ⟨fuel, rfl⟩ : ∃ k, fuel = k + 1 := ⟨fuel - 1, by omega⟩
    obtain ⟨hitem, hrest⟩ := List.forall_mem_cons.mp hitems
    rw [List.map_cons, separated, List.length_append] at hfuel
    rw [List.map_cons, separated, List.append_assoc, scanItems,
      hitem (by omega) (stops_separated (Or.inl rfl) _ rest)]
    simp only [Option.bind_eq_bind, Option.bind_some]
    cases items with
    | nil => rfl
    | cons next items =>
      rw [List.map_cons, flatMap_comma, List.length_cons, ← List.map_cons] at hfuel
      have hih := @ih hrest (List.cons_ne_nil next items) fuel (by omega)
        (before ++ [item.sorted])
      rw [List.append_assoc] at hih
      rw [List.map_cons, flatMap_comma, ← List.map_cons, List.cons_append,
        skipSpace_cons (by decide), List.head?_cons, List.tail_cons, skipSpace_separated h,
        if_neg (by decide), if_pos rfl]
      exact hih

theorem length_le_escape (cs : List Char) :
    cs.length ≤ (cs.flatMap fun c => (escapeChar c).toList).length := by
  induction cs with
  | nil => exact le_rfl
  | cons c cs ih =>
    have hpos : 0 < (escapeChar c).toList.length := by
      rcases escapeChar_cases c with ⟨e, h, -⟩ | ⟨a, b, h, -⟩ | ⟨h, -⟩ <;> rw [h] <;> simp
    rw [List.flatMap_cons, List.length_append, List.length_cons]
    omega

theorem skipSpace_fields (p : String × Json K) (fields : List (String × Json K))
    (rest : List Char) :
    skipSpace (separated ((p :: fields).map (fieldChars floatRepr)) ++ rest) =
      separated ((p :: fields).map (fieldChars floatRepr)) ++ rest := by
  rw [List.map_cons, separated, fieldChars, quote_toList]
  exact skipSpace_cons (by decide) _

/-- **The fields of an object.** -/
theorem scanFields_chars (h : FloatText floatRepr parseFloat) {fields : List (String × Json K)}
    (hfields : ∀ p ∈ fields, ReadsBack floatRepr parseFloat p.2) (hne : fields ≠ [])
    {fuel : ℕ} (hfuel : 2 * (separated (fields.map (fieldChars floatRepr))).length + 1 < fuel)
    (before : List (String × Json K)) (hkeys : ((before ++ fields).map Prod.fst).Nodup)
    (rest : List Char) :
    scanFields parseFloat fuel before
        (separated (fields.map (fieldChars floatRepr)) ++ '\x7d' :: rest) =
      some (.obj (before ++ fields.map fun p => (p.1, p.2.sorted)), rest) := by
  induction fields generalizing fuel before with
  | nil => exact absurd rfl hne
  | cons p fields ih =>
    obtain ⟨fuel, rfl⟩ : ∃ k, fuel = k + 1 := ⟨fuel - 1, by omega⟩
    obtain ⟨hvalue, hrest⟩ := List.forall_mem_cons.mp hfields
    have hfield : ∀ rest, fieldChars floatRepr p ++ rest = '"' ::
        (p.1.toList.flatMap (fun c => (escapeChar c).toList) ++
          '"' :: ':' :: (p.2.chars floatRepr ++ rest)) := by
      intro rest
      rw [fieldChars, quote_toList]
      simp only [List.cons_append, List.append_assoc, List.nil_append]
    have hstore : store p.1 p.2.sorted before = before ++ [(p.1, p.2.sorted)] := by
      rw [List.map_append, List.map_cons] at hkeys
      exact store_of_not_mem fun hmem =>
        (List.nodup_append.mp hkeys).2.2 _ hmem _ List.mem_cons_self rfl
    have hlen := congrArg List.length (hfield [])
    have hescape := length_le_escape p.1.toList
    simp only [List.append_nil, List.length_cons, List.length_append] at hlen
    rw [List.map_cons, separated, List.length_append] at hfuel
    rw [List.map_cons, separated, List.append_assoc, hfield, scanFields, List.head?_cons,
      if_pos rfl, List.tail_cons, scanString_escape _ (by omega)]
    simp only [Option.bind_eq_bind, Option.bind_some]
    rw [skipSpace_cons (by decide), List.head?_cons, if_pos rfl, List.tail_cons,
      skipSpace_chars h, hvalue (by omega) (stops_separated (Or.inr rfl) _ rest)]
    simp only [Option.bind_some, String.ofList_toList, hstore]
    cases fields with
    | nil => rfl
    | cons next fields =>
      rw [List.map_cons, flatMap_comma, List.length_cons, ← List.map_cons] at hfuel
      have hkeys' : (((before ++ [(p.1, p.2.sorted)]) ++ next :: fields).map Prod.fst).Nodup := by
        simpa using hkeys
      have hih := @ih hrest (List.cons_ne_nil next fields) fuel (by omega)
        (before ++ [(p.1, p.2.sorted)]) hkeys'
      rw [List.append_assoc] at hih
      rw [List.map_cons, flatMap_comma, ← List.map_cons, List.cons_append,
        skipSpace_cons (by decide), List.head?_cons, List.tail_cons, skipSpace_fields,
        if_neg (by decide), if_pos rfl]
      exact hih

theorem literal_append (word rest : List Char) : literal word (word ++ rest) = some rest := by
  unfold literal
  rw [if_pos (List.prefix_append word rest), List.drop_left]

theorem scanOnce_number {s rest : List Char} (hs : IsInteger s) (fuel : ℕ) :
    scanOnce parseFloat (fuel + 1) (s ++ rest) = scanNumber parseFloat (s ++ rest) := by
  obtain ⟨c, cs, rfl, hc⟩ : ∃ c cs, s = c :: cs ∧ (c = '-' ∨ c.isDigit) := by
    obtain ⟨ds, hds, rfl | rfl⟩ := hs
    · obtain ⟨c, ds, rfl⟩ := List.exists_cons_of_ne_nil hds.ne_nil
      exact ⟨c, ds, rfl, Or.inr (hds.digits c List.mem_cons_self)⟩
    · exact ⟨'-', ds, rfl, Or.inl rfl⟩
  have hne : ∀ {d : Char}, d ≠ '-' → d.isDigit = false → c ≠ d := by
    rintro d hd hdigit rfl
    rcases hc with hc | hc
    · exact hd hc
    · exact absurd hc (by simp [hdigit])
  rw [List.cons_append, scanOnce, if_neg (hne (by decide) (by decide)),
    if_neg (hne (by decide) (by decide)), if_neg (hne (by decide) (by decide)),
    if_neg (hne (by decide) (by decide)), if_neg (hne (by decide) (by decide)),
    if_neg (hne (by decide) (by decide))]

/-- **The decoder reads a canonical text up to its end**, whatever follows. -/
theorem scanOnce_chars (h : FloatText floatRepr parseFloat) {v : Json K} (hv : v.Distinct) :
    ReadsBack floatRepr parseFloat v := by
  intro fuel rest hfuel hrest
  obtain ⟨fuel, rfl⟩ : ∃ k, fuel = k + 1 := ⟨fuel - 1, by omega⟩
  induction v using Json.ind generalizing fuel rest with
  | null =>
    rw [chars_null, List.cons_append, scanOnce, if_neg (by decide), if_neg (by decide),
      if_neg (by decide), if_pos rfl, literal_append, Option.map_some, Json.sorted]
  | bool b =>
    cases b with
    | true =>
      rw [chars_true, List.cons_append, scanOnce, if_neg (by decide), if_neg (by decide),
        if_neg (by decide), if_neg (by decide), if_pos rfl, literal_append, Option.map_some,
        Json.sorted]
    | false =>
      rw [chars_false, List.cons_append, scanOnce, if_neg (by decide), if_neg (by decide),
        if_neg (by decide), if_neg (by decide), if_neg (by decide), if_pos rfl, literal_append,
        Option.map_some, Json.sorted]
  | int n =>
    rw [chars_int, scanOnce_number (isInteger_toString n), scanNumber_int _ _ hrest, Json.sorted]
  | float x =>
    obtain ⟨integer, frac, exp, htext, hint, -⟩ := h.shape x
    have hnumber := scanNumber_float h x hrest
    rw [htext, List.append_assoc] at hnumber
    rw [chars_float, htext, List.append_assoc, scanOnce_number hint, hnumber, Json.sorted]
  | str s =>
    have hescape := length_le_escape s.toList
    rw [chars_str] at hfuel ⊢
    simp only [List.length_cons, List.length_append] at hfuel
    rw [List.cons_append, List.append_assoc, List.singleton_append, scanOnce, if_pos rfl,
      scanString_escape _ (by omega), Option.map_some, Json.sorted]
    simp only [String.ofList_toList]
  | arr items ih =>
    have hitems : ∀ item ∈ items, ReadsBack floatRepr parseFloat item := by
      intro item hitem fuel rest hfuel hrest
      obtain ⟨fuel, rfl⟩ : ∃ k, fuel = k + 1 := ⟨fuel - 1, by omega⟩
      exact ih item hitem (distinctItems_iff.mp hv item hitem) hrest fuel hfuel
    rw [chars_arr] at hfuel ⊢
    simp only [List.length_cons, List.length_append] at hfuel
    rw [List.cons_append, List.append_assoc, List.singleton_append, sorted_arr, scanOnce,
      if_neg (by decide), if_neg (by decide), if_pos rfl]
    cases items with
    | nil => rfl
    | cons item items =>
      obtain ⟨c, cs, hchars, -, hc⟩ := head_chars h item
      have hhead : (separated ((item :: items).map (Json.chars floatRepr)) ++
          ']' :: rest).head? ≠ some ']' := by
        rw [List.map_cons, separated, hchars]
        exact fun heq => hc (Option.some.inj heq)
      simp only
      rw [skipSpace_separated h, if_neg hhead]
      exact scanItems_chars h hitems (List.cons_ne_nil item items) (by omega) [] rest
  | obj fields ih =>
    have hkeys : ((byKey fields).map Prod.fst).Nodup :=
      ((List.perm_insertionSort _ fields).map Prod.fst).nodup_iff.mpr hv.1
    have hfields : ∀ p ∈ byKey fields, ReadsBack floatRepr parseFloat p.2 := by
      intro p hp fuel rest hfuel hrest
      obtain ⟨fuel, rfl⟩ : ∃ k, fuel = k + 1 := ⟨fuel - 1, by omega⟩
      have hmem : p ∈ fields := (List.mem_insertionSort _).mp hp
      exact ih p hmem (distinctFields_iff.mp hv.2 p hmem) hrest fuel hfuel
    rw [chars_obj] at hfuel ⊢
    simp only [List.length_cons, List.length_append] at hfuel
    rw [List.cons_append, List.append_assoc, List.singleton_append, sorted_obj, scanOnce,
      if_neg (by decide), if_pos rfl]
    generalize byKey fields = sorted at hkeys hfields hfuel
    cases sorted with
    | nil => rfl
    | cons p sorted =>
      have hhead : (separated ((p :: sorted).map (fieldChars floatRepr)) ++
          '\x7d' :: rest).head? ≠ some '\x7d' := by
        rw [List.map_cons, separated, fieldChars, quote_toList]
        exact fun heq => absurd (Option.some.inj heq) (by decide)
      simp only
      rw [skipSpace_fields, if_neg hhead]
      exact scanFields_chars h hfields (List.cons_ne_nil p sorted) (by omega) [] hkeys rest

/-- What `canonical_json` writes, `json.loads` reads back, with the keys of its
objects in order. -/
theorem loads_canonicalJson (h : FloatText floatRepr parseFloat) {v : Json K} (hv : v.Distinct) :
    loads parseFloat (canonicalJson floatRepr v) = some v.sorted := by
  have hread : scanOnce parseFloat (2 * (v.chars floatRepr).length + 1)
      (v.chars floatRepr ++ []) = some (v.sorted, []) :=
    scanOnce_chars h hv (Nat.lt_succ_self _) fun _ hc => by cases hc
  have hskip := skipSpace_chars h v []
  rw [List.append_nil] at hread hskip
  unfold loads
  simp only
  rw [show (canonicalJson floatRepr v).toList = v.chars floatRepr from rfl, hskip, hread]
  rfl

/-- The order of the keys is not in the text. -/
theorem canonicalJson_sorted (v : Json K) :
    canonicalJson floatRepr v.sorted = canonicalJson floatRepr v := by
  have hchars : v.sorted.chars floatRepr = v.chars floatRepr := by
    induction v using Json.ind with
    | arr items ih =>
      rw [sorted_arr, chars_arr, chars_arr, List.map_map]
      exact congrArg (fun pieces => '[' :: (separated pieces ++ [']'])) (List.map_congr_left ih)
    | obj fields ih =>
      have hsorted : ((byKey fields).map fun p => (p.1, p.2.sorted)).Pairwise
          fun p q => p.1 ≤ q.1 := by
        have htotal : Std.Total fun p q : String × Json K => p.1 ≤ q.1 := ⟨fun _ _ => le_total _ _⟩
        have htrans : IsTrans (String × Json K) fun p q => p.1 ≤ q.1 := ⟨fun _ _ _ => le_trans⟩
        exact List.pairwise_map.mpr (List.pairwise_insertionSort _ fields)
      rw [sorted_obj, chars_obj, chars_obj, byKey, hsorted.insertionSort_eq, List.map_map]
      refine congrArg (fun pieces => '\x7b' :: (separated pieces ++ ['\x7d'])) ?_
      refine List.map_congr_left fun p hp => ?_
      simp only [Function.comp_apply, fieldChars]
      rw [ih p ((List.mem_insertionSort _).mp hp)]
    | _ => rw [Json.sorted]
  exact String.toList_inj.mp hchars

/-- A float that is a whole number, as `repr` writes it below 10¹⁶. -/
def wholeRepr (n : ℤ) : String := toString n ++ ".0"

/-- `float`, on such a text. -/
def parseWhole (text : String) : ℤ := parseInt text.toList.dropLast.dropLast

theorem floatText_whole : FloatText wholeRepr parseWhole := by
  have htext : ∀ n, (wholeRepr n).toList = (toString n).toList ++ ['.', '0'] :=
    fun n => String.toList_append
  refine ⟨fun n => ?_, fun n => ⟨(toString n).toList, ['.', '0'], [], ?_, isInteger_toString n,
    Or.inr ⟨['0'], by decide, List.forall_mem_singleton.mpr rfl, rfl⟩, Or.inl rfl, by decide⟩⟩
  · have hdrop : ((toString n).toList ++ ['.', '0']).dropLast.dropLast = (toString n).toList := by
      rw [show ['.', '0'] = ['.'] ++ ['0'] from rfl, ← List.append_assoc, List.dropLast_concat,
        List.dropLast_concat]
    rw [parseWhole, htext, hdrop, parseInt_toString]
  · rw [htext, List.append_nil]

end Values

end RoutePlanner.Commute
