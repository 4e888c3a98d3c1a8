import RoutePlanner.Commute.Json
import RoutePlanner.Lib.Assoc

/-!
# `json.loads`

The decoder of the standard library, which `read_chunk` calls on a stored body: a text is the list
of its characters, an object the `dict` of its pairs. A text that `loads` raises on has no value.
Not modelled: the constants `NaN` and `Infinity`, which the store never writes, and an escaped
surrogate without its pair, which is no character.

* `scanOnce_fuel`: the fuel of `loads` is always enough.
* `loads_distinct`: no key of a loaded object is there twice.
-/

namespace RoutePlanner.Commute

open RoutePlanner.Lib

variable {K : Type}

/-! ## Strings -/

/-- `BACKSLASH`: the escapes of one letter. -/
def backslash (c : Char) : Option Char :=
  if c = '"' then some '"'
  else if c = '\\' then some '\\'
  else if c = '/' then some '/'
  else if c = 'b' then some (Char.ofNat 0x08)
  else if c = 'f' then some (Char.ofNat 0x0c)
  else if c = 'n' then some '\n'
  else if c = 'r' then some '\r'
  else if c = 't' then some '\t'
  else none

/-- The value of a hex digit. -/
def hexVal (c : Char) : Option ℕ :=
  if '0' ≤ c ∧ c ≤ '9' then some (c.toNat - '0'.toNat)
  else if 'a' ≤ c ∧ c ≤ 'f' then some (c.toNat - 'a'.toNat + 10)
  else if 'A' ≤ c ∧ c ≤ 'F' then some (c.toNat - 'A'.toNat + 10)
  else none

/-- `_decode_uXXXX`: four hex digits. -/
def decodeUXXXX : List Char → Option (ℕ × List Char)
  | a :: b :: c :: d :: s => do
    let a ← hexVal a
    let b ← hexVal b
    let c ← hexVal c
    let d ← hexVal d
    return (((a * 16 + b) * 16 + c) * 16 + d, s)
  | _ => none

/-- `chr`. -/
def chr (n : ℕ) : Option Char := if n.isValidChar then some (Char.ofNat n) else none

/-- The low half of a surrogate pair. -/
def scanLow (high : ℕ) : List Char → Option (Char × List Char)
  | '\\' :: 'u' :: s => do
    let (low, s) ← decodeUXXXX s
    if 0xdc00 ≤ low ∧ low ≤ 0xdfff then
      return (← chr (0x10000 + ((high - 0xd800) * 1024 + (low - 0xdc00))), s)
    none
  | _ => none

/-- What follows `\u`. -/
def scanUnicode (s : List Char) : Option (Char × List Char) := do
  let (uni, s) ← decodeUXXXX s
  if 0xd800 ≤ uni ∧ uni ≤ 0xdbff then scanLow uni s
  else return (← chr uni, s)

/-- One character of a string, after its quote. -/
def scanChar : List Char → Option (Char × List Char)
  | [] => none
  | c :: s =>
    if c = '\\' then
      match s with
      | [] => none
      | e :: s => if e = 'u' then scanUnicode s else (backslash e).map fun c => (c, s)
    else if c.toNat < 0x20 then none
    else some (c, s)

/-- `scanstring`: the characters up to the closing quote. -/
def scanString : ℕ → List Char → Option (List Char × List Char)
  | 0, _ => none
  | fuel + 1, s =>
    if s.head? = some '"' then some ([], s.tail)
    else do
      let (c, s) ← scanChar s
      let (cs, s) ← scanString fuel s
      return (c :: cs, s)

/-! ## Numbers -/

/-- A run of digits. -/
def scanDigits (s : List Char) : List Char × List Char :=
  (s.takeWhile Char.isDigit, s.dropWhile Char.isDigit)

/-- `0|[1-9][0-9]*`. -/
def scanNatural : List Char → Option (List Char × List Char)
  | [] => none
  | c :: s =>
    if c = '0' then some ([c], s)
    else if c.isDigit then some (c :: (scanDigits s).1, (scanDigits s).2)
    else none

/-- `-?(0|[1-9][0-9]*)`. -/
def scanInteger (s : List Char) : Option (List Char × List Char) :=
  if s.head? = some '-' then (scanNatural s.tail).map fun (ds, s) => ('-' :: ds, s)
  else scanNatural s

/-- `(\.[0-9]+)?`. -/
def scanFrac (s : List Char) : List Char × List Char :=
  let (ds, rest) := scanDigits s.tail
  if s.head? = some '.' ∧ ds ≠ [] then ('.' :: ds, rest) else ([], s)

/-- `[-+]?`. -/
def scanSign (s : List Char) : List Char × List Char :=
  if s.head? = some '-' ∨ s.head? = some '+' then (s.take 1, s.drop 1) else ([], s)

/-- `([eE][-+]?[0-9]+)?`. -/
def scanExp (s : List Char) : List Char × List Char :=
  let (sign, digits) := scanSign s.tail
  let (ds, rest) := scanDigits digits
  if (s.head? = some 'e' ∨ s.head? = some 'E') ∧ ds ≠ [] then (s.take 1 ++ sign ++ ds, rest)
  else ([], s)

/-- `int` of what `scanInteger` matched. -/
def parseInt (s : List Char) : ℤ :=
  if s.head? = some '-' then -(Nat.ofDigitChars 10 s.tail 0 : ℤ) else Nat.ofDigitChars 10 s 0

/-- `_match_number_unicode`: an `int` where there is neither fraction nor exponent. -/
def scanNumber (parseFloat : String → K) (s : List Char) : Option (Json K × List Char) := do
  let (integer, s) ← scanInteger s
  let (frac, s) := scanFrac s
  let (exp, s) := scanExp s
  if frac = [] ∧ exp = [] then return (.int (parseInt integer), s)
  return (.float (parseFloat (String.ofList (integer ++ frac ++ exp))), s)

/-! ## Values -/

/-- `WHITESPACE`. -/
def isJsonSpace (c : Char) : Bool := c == ' ' || c == '\t' || c == '\n' || c == '\r'

/-- `_w(s, idx).end()`. -/
def skipSpace (s : List Char) : List Char := s.dropWhile isJsonSpace

/-- The rest of a word. -/
def literal (word : List Char) (s : List Char) : Option (List Char) :=
  if word <+: s then some (s.drop word.length) else none

section Scan

variable (parseFloat : String → K)

mutual

/-- `scan_once`. -/
def scanOnce : ℕ → List Char → Option (Json K × List Char)
  | 0, _ => none
  | _ + 1, [] => none
  | fuel + 1, c :: s =>
    if c = '"' then (scanString fuel s).map fun (cs, s) => (.str (String.ofList cs), s)
    else if c = '\x7b' then
      let s := skipSpace s
      if s.head? = some '\x7d' then some (.obj [], s.tail) else scanFields fuel [] s
    else if c = '[' then
      let s := skipSpace s
      if s.head? = some ']' then some (.arr [], s.tail) else scanItems fuel [] s
    else if c = 'n' then (literal ['u', 'l', 'l'] s).map fun s => (.null, s)
    else if c = 't' then (literal ['r', 'u', 'e'] s).map fun s => (.bool true, s)
    else if c = 'f' then (literal ['a', 'l', 's', 'e'] s).map fun s => (.bool false, s)
    else scanNumber parseFloat (c :: s)

/-- The loop of `_parse_array_unicode`. -/
def scanItems : ℕ → List (Json K) → List Char → Option (Json K × List Char)
  | 0, _, _ => none
  | fuel + 1, items, s => do
    let (item, s) ← scanOnce fuel s
    let s := skipSpace s
    if s.head? = some ']' then return (.arr (items ++ [item]), s.tail)
    if s.head? = some ',' then scanItems fuel (items ++ [item]) (skipSpace s.tail) else none

/-- The loop of `_parse_object_unicode`. -/
def scanFields : ℕ → List (String × Json K) → List Char → Option (Json K × List Char)
  | 0, _, _ => none
  | fuel + 1, fields, s =>
    if s.head? = some '"' then do
      let (key, s) ← scanString fuel s.tail
      let s := skipSpace s
      if s.head? = some ':' then
        let (value, s) ← scanOnce fuel (skipSpace s.tail)
        let fields := store (String.ofList key) value fields
        let s := skipSpace s
        if s.head? = some '\x7d' then return (.obj fields, s.tail)
        if s.head? = some ',' then scanFields fuel fields (skipSpace s.tail) else none
      else none
    else none

end

/-- **`json.loads`**: one value, and nothing but whitespace around it. -/
def loads (text : String) : Option (Json K) := do
  let s := text.toList
  let (value, rest) ← scanOnce parseFloat (2 * s.length + 1) (skipSpace s)
  if skipSpace rest = [] then return value else none

end Scan

/-! ## What is left of the text -/

section Rest

variable {parseFloat : String → K} {s rest : List Char} {fuel : ℕ}

theorem length_skipSpace (s : List Char) : (skipSpace s).length ≤ s.length :=
  (List.dropWhile_suffix _).length_le

theorem length_scanDigits (s : List Char) : (scanDigits s).2.length ≤ s.length :=
  (List.dropWhile_suffix _).length_le

theorem length_decodeUXXXX {n : ℕ} (h : decodeUXXXX s = some (n, rest)) :
    rest.length < s.length := by
  unfold decodeUXXXX at h
  split at h
  · simp only [Option.bind_eq_bind, Option.bind_eq_some_iff, Option.pure_def, Option.some.injEq,
      Prod.mk.injEq] at h
    obtain ⟨_, -, _, -, _, -, _, -, -, rfl⟩ := h
    simp only [List.length_cons]
    omega
  · exact absurd h (by simp)

theorem length_scanUnicode {c : Char} (h : scanUnicode s = some (c, rest)) :
    rest.length < s.length := by
  unfold scanUnicode at h
  obtain ⟨⟨uni, s₁⟩, huni, h⟩ := Option.bind_eq_some_iff.mp h
  have hlt := length_decodeUXXXX huni
  simp only at h
  split_ifs at h
  · unfold scanLow at h
    split at h
    · obtain ⟨⟨low, s₂⟩, hlow, h⟩ := Option.bind_eq_some_iff.mp h
      have hlt' := length_decodeUXXXX hlow
      simp only at h
      split_ifs at h
      obtain ⟨_, -, h⟩ := Option.bind_eq_some_iff.mp h
      obtain ⟨-, rfl⟩ := Prod.mk.inj (Option.some.inj h)
      simp only [List.length_cons] at hlt hlt'
      omega
    · exact absurd h (by simp)
  · obtain ⟨_, -, h⟩ := Option.bind_eq_some_iff.mp h
    obtain ⟨-, rfl⟩ := Prod.mk.inj (Option.some.inj h)
    exact hlt

theorem length_scanChar {c : Char} (h : scanChar s = some (c, rest)) :
    rest.length < s.length := by
  unfold scanChar at h
  split at h
  · exact absurd h (by simp)
  · rename_i d s
    split_ifs at h
    · split at h
      · exact absurd h (by simp)
      · rename_i e s
        split_ifs at h
        · have := length_scanUnicode h
          simp only [List.length_cons]
          omega
        · obtain ⟨_, -, h⟩ := Option.map_eq_some_iff.mp h
          obtain ⟨-, rfl⟩ := Prod.mk.inj h
          simp only [List.length_cons]
          omega
    · obtain ⟨-, rfl⟩ := Prod.mk.inj (Option.some.inj h)
      exact Nat.lt_succ_self _

theorem length_scanString {cs : List Char} (h : scanString fuel s = some (cs, rest)) :
    rest.length < s.length := by
  induction fuel generalizing s cs with
  | zero => exact absurd h (by simp [scanString])
  | succ fuel ih =>
    unfold scanString at h
    split_ifs at h with hquote
    · obtain ⟨-, rfl⟩ := Prod.mk.inj (Option.some.inj h)
      cases s with
      | nil => exact absurd hquote (by simp)
      | cons c s => exact Nat.lt_succ_self _
    · obtain ⟨⟨c, s₁⟩, hc, h⟩ := Option.bind_eq_some_iff.mp h
      obtain ⟨⟨cs', s₂⟩, hcs, h⟩ := Option.bind_eq_some_iff.mp h
      obtain ⟨-, rfl⟩ := Prod.mk.inj (Option.some.inj h)
      exact (ih hcs).trans (length_scanChar hc)

theorem length_scanNatural {ds : List Char} (h : scanNatural s = some (ds, rest)) :
    rest.length < s.length := by
  unfold scanNatural at h
  split at h
  · exact absurd h (by simp)
  · rename_i c s
    have := length_scanDigits s
    split_ifs at h <;> obtain ⟨-, rfl⟩ := Prod.mk.inj (Option.some.inj h) <;>
      simp only [List.length_cons] <;> omega

theorem length_scanInteger {ds : List Char} (h : scanInteger s = some (ds, rest)) :
    rest.length < s.length := by
  unfold scanInteger at h
  split_ifs at h
  · obtain ⟨⟨ds', s'⟩, hds, h⟩ := Option.map_eq_some_iff.mp h
    obtain ⟨-, rfl⟩ := Prod.mk.inj h
    have := length_scanNatural hds
    have := s.length_tail
    omega
  · exact length_scanNatural h

theorem length_scanFrac (s : List Char) : (scanFrac s).2.length ≤ s.length := by
  unfold scanFrac
  have := length_scanDigits s.tail
  have := s.length_tail
  simp only
  split_ifs
  · simp only
    omega
  · exact le_rfl

theorem length_scanSign (s : List Char) : (scanSign s).2.length ≤ s.length := by
  unfold scanSign
  split_ifs
  · simp
  · exact le_rfl

theorem length_scanExp (s : List Char) : (scanExp s).2.length ≤ s.length := by
  unfold scanExp
  have := length_scanSign s.tail
  have := length_scanDigits (scanSign s.tail).2
  have := s.length_tail
  simp only
  split_ifs
  · simp only
    omega
  · exact le_rfl

theorem length_scanNumber {v : Json K} (h : scanNumber parseFloat s = some (v, rest)) :
    rest.length < s.length := by
  unfold scanNumber at h
  obtain ⟨⟨integer, s₁⟩, hint, h⟩ := Option.bind_eq_some_iff.mp h
  have := length_scanInteger hint
  have := length_scanFrac s₁
  have := length_scanExp (scanFrac s₁).2
  simp only at h
  split_ifs at h <;> obtain ⟨-, rfl⟩ := Prod.mk.inj (Option.some.inj h) <;> omega

theorem length_literal {word : List Char} (h : literal word s = some rest) :
    rest.length ≤ s.length := by
  unfold literal at h
  split_ifs at h
  obtain rfl := Option.some.inj h
  simp

/-- A value is not empty. -/
theorem length_scan (parseFloat : String → K) (fuel : ℕ) :
    (∀ s v rest, scanOnce parseFloat fuel s = some (v, rest) → rest.length < s.length) ∧
    (∀ items s v rest, scanItems parseFloat fuel items s = some (v, rest) →
      rest.length < s.length) ∧
    ∀ fields s v rest, scanFields parseFloat fuel fields s = some (v, rest) →
      rest.length < s.length := by
  induction fuel with
  | zero => simp [scanOnce, scanItems, scanFields]
  | succ fuel ih =>
    obtain ⟨honce, hitems, hfields⟩ := ih
    refine ⟨fun s v rest h => ?_, fun items s v rest h => ?_, fun fields s v rest h => ?_⟩
    · cases s with
      | nil => exact absurd h (by simp [scanOnce])
      | cons c s =>
        have hskip := length_skipSpace s
        have htail := (skipSpace s).length_tail
        have hmap : ∀ {word : List Char} {w : Json K},
            (literal word s).map (fun s => (w, s)) = some (v, rest) →
              rest.length < (c :: s).length := by
          intro word w h
          obtain ⟨_, hs, h⟩ := Option.map_eq_some_iff.mp h
          obtain ⟨-, rfl⟩ := Prod.mk.inj h
          exact Nat.lt_succ_of_le (length_literal hs)
        unfold scanOnce at h
        simp only at h
        split_ifs at h
        · obtain ⟨⟨cs, s'⟩, hcs, h⟩ := Option.map_eq_some_iff.mp h
          obtain ⟨-, rfl⟩ := Prod.mk.inj h
          exact (length_scanString hcs).trans (Nat.lt_succ_self _)
        · obtain ⟨-, rfl⟩ := Prod.mk.inj (Option.some.inj h)
          simp only [List.length_cons]
          omega
        · have := hfields _ _ _ _ h
          simp only [List.length_cons]
          omega
        · obtain ⟨-, rfl⟩ := Prod.mk.inj (Option.some.inj h)
          simp only [List.length_cons]
          omega
        · have := hitems _ _ _ _ h
          simp only [List.length_cons]
          omega
        · exact hmap h
        · exact hmap h
        · exact hmap h
        · exact length_scanNumber h
    · unfold scanItems at h
      obtain ⟨⟨item, s₁⟩, hitem, h⟩ := Option.bind_eq_some_iff.mp h
      have := honce _ _ _ hitem
      have := length_skipSpace s₁
      have := (skipSpace s₁).length_tail
      have := length_skipSpace (skipSpace s₁).tail
      simp only at h
      split_ifs at h
      · obtain ⟨-, rfl⟩ := Prod.mk.inj (Option.some.inj h)
        omega
      · have := hitems _ _ _ _ h
        omega
    · unfold scanFields at h
      split_ifs at h
      obtain ⟨⟨key, s₁⟩, hkey, h⟩ := Option.bind_eq_some_iff.mp h
      have := length_scanString hkey
      have := s.length_tail
      have := length_skipSpace s₁
      have := (skipSpace s₁).length_tail
      have := length_skipSpace (skipSpace s₁).tail
      simp only at h
      split_ifs at h
      obtain ⟨⟨value, s₂⟩, hvalue, h⟩ := Option.bind_eq_some_iff.mp h
      have := honce _ _ _ hvalue
      have := length_skipSpace s₂
      have := (skipSpace s₂).length_tail
      have := length_skipSpace (skipSpace s₂).tail
      simp only at h
      split_ifs at h
      · obtain ⟨-, rfl⟩ := Prod.mk.inj (Option.some.inj h)
        omega
      · have := hfields _ _ _ _ h
        omega

end Rest

/-! ## Fuel -/

section Fuel

theorem scanString_fuel {n m : ℕ} {s : List Char} (hn : s.length < n) (hm : s.length < m) :
    scanString n s = scanString m s := by
  induction n generalizing m s with
  | zero => omega
  | succ n ih =>
    obtain ⟨m, rfl⟩ : ∃ k, m = k + 1 := ⟨m - 1, by omega⟩
    unfold scanString
    split_ifs
    · rfl
    · refine Option.bind_congr fun p hp => ?_
      have := length_scanChar hp
      simp only [ih (m := m) (s := p.2) (by omega) (by omega)]

/-- **Twice as much fuel as characters is enough.** -/
theorem scan_fuel (parseFloat : String → K) (n : ℕ) :
    (∀ m s, 2 * s.length < n → 2 * s.length < m →
      scanOnce parseFloat n s = scanOnce parseFloat m s) ∧
    (∀ m items s, 2 * s.length + 1 < n → 2 * s.length + 1 < m →
      scanItems parseFloat n items s = scanItems parseFloat m items s) ∧
    ∀ m fields s, 2 * s.length + 1 < n → 2 * s.length + 1 < m →
      scanFields parseFloat n fields s = scanFields parseFloat m fields s := by
  induction n with
  | zero => simp
  | succ n ih =>
    obtain ⟨honce, hitems, hfields⟩ := ih
    have hpred : ∀ {k m : ℕ}, k < m → ∃ j, m = j + 1 := fun {_ m} h => ⟨m - 1, by omega⟩
    refine ⟨fun m s hn hm => ?_, fun m items s hn hm => ?_, fun m fields s hn hm => ?_⟩
    · obtain ⟨m, rfl⟩ := hpred hm
      cases s with
      | nil => simp [scanOnce]
      | cons c s =>
        simp only [List.length_cons] at hn hm
        have hskip := length_skipSpace s
        simp only [scanOnce, scanString_fuel (n := n) (m := m) (s := s) (by omega) (by omega),
          hitems m [] (skipSpace s) (by omega) (by omega),
          hfields m [] (skipSpace s) (by omega) (by omega)]
    · obtain ⟨m, rfl⟩ := hpred hm
      unfold scanItems
      rw [honce m s (by omega) (by omega)]
      refine Option.bind_congr fun p hp => ?_
      have := (length_scan parseFloat m).1 s p.1 p.2 hp
      have := length_skipSpace p.2
      have := (skipSpace p.2).length_tail
      have := length_skipSpace (skipSpace p.2).tail
      simp only [hitems m (items ++ [p.1]) (skipSpace (skipSpace p.2).tail) (by omega) (by omega)]
    · obtain ⟨m, rfl⟩ := hpred hm
      have := s.length_tail
      unfold scanFields
      rw [scanString_fuel (n := n) (m := m) (s := s.tail) (by omega) (by omega)]
      split_ifs
      · refine Option.bind_congr fun p hp => ?_
        have := length_scanString hp
        have := length_skipSpace p.2
        have := (skipSpace p.2).length_tail
        have := length_skipSpace (skipSpace p.2).tail
        simp only
        rw [honce m (skipSpace (skipSpace p.2).tail) (by omega) (by omega)]
        split_ifs
        · refine Option.bind_congr fun q hq => ?_
          have := (length_scan parseFloat m).1 _ q.1 q.2 hq
          have := length_skipSpace q.2
          have := (skipSpace q.2).length_tail
          have := length_skipSpace (skipSpace q.2).tail
          simp only [hfields m (store (String.ofList p.1) q.1 fields)
            (skipSpace (skipSpace q.2).tail) (by omega) (by omega)]
        · rfl
      · rfl

/-- The fuel of `loads` is enough. -/
theorem scanOnce_fuel (parseFloat : String → K) {n : ℕ} {s : List Char} (hn : 2 * s.length < n) :
    scanOnce parseFloat n (skipSpace s) = scanOnce parseFloat (2 * s.length + 1) (skipSpace s) :=
  have := length_skipSpace s
  (scan_fuel parseFloat n).1 _ _ (by omega) (by omega)

end Fuel

/-! ## Keys -/

section Keys

variable {parseFloat : String → K} {text : String} {v : Json K}

theorem mem_store {κ β : Type} [DecidableEq κ] {k : κ} {value : β} {l : List (κ × β)} {p : κ × β}
    (h : p ∈ store k value l) : p = (k, value) ∨ p ∈ l := by
  induction l with
  | nil => exact Or.inl (List.mem_singleton.mp h)
  | cons e l ih =>
    unfold store at h
    split_ifs at h
    · exact (List.mem_cons.mp h).imp_right (List.mem_cons_of_mem e)
    · rcases List.mem_cons.mp h with rfl | h
      · exact Or.inr List.mem_cons_self
      · exact (ih h).imp_right (List.mem_cons_of_mem e)

theorem scanNumber_distinct {s rest : List Char} (h : scanNumber parseFloat s = some (v, rest)) :
    v.Distinct := by
  unfold scanNumber at h
  obtain ⟨⟨integer, s₁⟩, -, h⟩ := Option.bind_eq_some_iff.mp h
  simp only at h
  split_ifs at h <;> obtain ⟨rfl, -⟩ := Prod.mk.inj (Option.some.inj h) <;> trivial

/-- A scanned object is the `dict` of its pairs. -/
theorem scan_distinct (parseFloat : String → K) (fuel : ℕ) :
    (∀ s v rest, scanOnce parseFloat fuel s = some (v, rest) → v.Distinct) ∧
    (∀ items s v rest, DistinctItems items →
      scanItems parseFloat fuel items s = some (v, rest) → v.Distinct) ∧
    ∀ fields s v rest, (fields.map Prod.fst).Nodup → DistinctFields fields →
      scanFields parseFloat fuel fields s = some (v, rest) → v.Distinct := by
  induction fuel with
  | zero => simp [scanOnce, scanItems, scanFields]
  | succ fuel ih =>
    obtain ⟨honce, hitems, hfields⟩ := ih
    refine ⟨fun s v rest h => ?_, fun items s v rest hd h => ?_,
      fun fields s v rest hkeys hd h => ?_⟩
    · cases s with
      | nil => exact absurd h (by simp [scanOnce])
      | cons c s =>
        unfold scanOnce at h
        simp only at h
        split_ifs at h
        · obtain ⟨_, -, h⟩ := Option.map_eq_some_iff.mp h
          obtain ⟨rfl, -⟩ := Prod.mk.inj h
          trivial
        · obtain ⟨rfl, -⟩ := Prod.mk.inj (Option.some.inj h)
          exact ⟨List.nodup_nil, trivial⟩
        · exact hfields [] _ _ _ List.nodup_nil trivial h
        · obtain ⟨rfl, -⟩ := Prod.mk.inj (Option.some.inj h)
          trivial
        · exact hitems [] _ _ _ trivial h
        · obtain ⟨_, -, h⟩ := Option.map_eq_some_iff.mp h
          obtain ⟨rfl, -⟩ := Prod.mk.inj h
          trivial
        · obtain ⟨_, -, h⟩ := Option.map_eq_some_iff.mp h
          obtain ⟨rfl, -⟩ := Prod.mk.inj h
          trivial
        · obtain ⟨_, -, h⟩ := Option.map_eq_some_iff.mp h
          obtain ⟨rfl, -⟩ := Prod.mk.inj h
          trivial
        · exact scanNumber_distinct h
    · unfold scanItems at h
      obtain ⟨⟨item, s₁⟩, hitem, h⟩ := Option.bind_eq_some_iff.mp h
      have hnew : DistinctItems (items ++ [item]) := by
        rw [distinctItems_iff] at hd ⊢
        intro a ha
        rcases List.mem_append.mp ha with ha | ha
        · exact hd a ha
        · rw [List.mem_singleton.mp ha]
          exact honce _ _ _ hitem
      simp only at h
      split_ifs at h
      · obtain ⟨rfl, -⟩ := Prod.mk.inj (Option.some.inj h)
        exact hnew
      · exact hitems _ _ _ _ hnew h
    · unfold scanFields at h
      split_ifs at h
      obtain ⟨⟨key, s₁⟩, -, h⟩ := Option.bind_eq_some_iff.mp h
      simp only at h
      split_ifs at h
      obtain ⟨⟨value, s₂⟩, hvalue, h⟩ := Option.bind_eq_some_iff.mp h
      have hnew : DistinctFields (store (String.ofList key) value fields) := by
        rw [distinctFields_iff] at hd ⊢
        intro p hp
        rcases mem_store hp with rfl | hp
        · exact honce _ _ _ hvalue
        · exact hd p hp
      simp only at h
      split_ifs at h
      · obtain ⟨rfl, -⟩ := Prod.mk.inj (Option.some.inj h)
        exact ⟨nodup_store hkeys, hnew⟩
      · exact hfields _ _ _ _ (nodup_store hkeys) hnew h

/-- **What `loads` returns has no key twice.** -/
theorem loads_distinct (h : loads parseFloat text = some v) : v.Distinct := by
  unfold loads at h
  obtain ⟨⟨value, rest⟩, hvalue, h⟩ := Option.bind_eq_some_iff.mp h
  simp only at h
  split_ifs at h
  obtain rfl := Option.some.inj h
  exact (scan_distinct parseFloat _).1 _ _ _ hvalue

end Keys

end RoutePlanner.Commute
