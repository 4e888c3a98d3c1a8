import Mathlib.Data.List.Basic

/-!
# `api/ratelimit.py`, `api/routes.py`: who the caller is

The routing quota is kept by client. `client_key` names the client by the entry of
`X-Forwarded-For` that the outermost trusted proxy wrote, which it finds by counting from the
right. A `str` is the list of its characters. A request has any number of `X-Forwarded-For` lines,
and `Headers.get` returns the first of them.

A trusted proxy appends its entry to the last line, or adds a line of its own, as
`Proxy.write` says; `arrive` is what is left of the caller's lines when all of them have written.

* `chain_arrive`: whatever the caller sent, the entries of all lines end in those of the proxies.
* `outermost_keys_iff`: the caller's lines do not matter just when one line arrives. With more,
  `client_key` reads a line that the last proxies did not write in.
-/

namespace RoutePlanner.Api

/-! ## The code -/

/-- A `str`. -/
abbrev Text := List Char

/-- `str.isspace` of one character. -/
def isSpace (c : Char) : Bool :=
  (9 ≤ c.toNat && c.toNat ≤ 13) || (28 ≤ c.toNat && c.toNat ≤ 32) || c.toNat == 0x85 ||
    c.toNat == 0xa0 || c.toNat == 0x1680 || (0x2000 ≤ c.toNat && c.toNat ≤ 0x200a) ||
    c.toNat == 0x2028 || c.toNat == 0x2029 || c.toNat == 0x202f || c.toNat == 0x205f ||
    c.toNat == 0x3000

/-- `str.strip`. -/
def strip (t : Text) : Text := ((t.dropWhile isSpace).reverse.dropWhile isSpace).reverse

/-- The entries of a header, as `client_key` lists them. -/
def chain (forwardedFor : Text) : List Text :=
  ((forwardedFor.splitOn ',').map strip).filter fun part => part ≠ []

/-- `_UNKNOWN_CLIENT`. -/
def unknownClient : Text := ['u', 'n', 'k', 'n', 'o', 'w', 'n']

/-- `peer or _UNKNOWN_CLIENT`, of the stripped peer. -/
def peerKey (peer : Option Text) : Text :=
  let peer := strip (peer.getD [])
  if peer = [] then unknownClient else peer

/-- `client_key`. -/
def clientKey (peer forwardedFor : Option Text) (hops : ℕ) : Text :=
  match forwardedFor with
  | none => peerKey peer
  | some forwardedFor =>
    if 0 < hops ∧ forwardedFor ≠ [] then
      let chain := chain forwardedFor
      if hops ≤ chain.length then chain.getD (chain.length - hops) [] else peerKey peer
    else peerKey peer

/-- What a request says of its origin: the peer, and its `X-Forwarded-For` lines in order. -/
structure Request where
  client : Option Text
  forwardedFor : List Text

/-- The key of `enforce_route_quota`. -/
def quotaKey (request : Request) (trustedProxies : ℕ) : Text :=
  clientKey request.client request.forwardedFor.head? trustedProxies

/-! ## The proxies -/

/-- One entry of a header, as it is read back. -/
abbrev Entry := { t : Text // chain t = [t] }

/-- How a proxy writes: after a comma and some blanks, or on a line of its own. -/
inductive Style where
  | appends (blanks : ℕ)
  | addsLine
  deriving DecidableEq

/-- A trusted proxy: how it writes, and the address it saw. -/
structure Proxy where
  style : Style
  entry : Entry

/-- What a proxy makes of the lines it received. -/
def Proxy.write (p : Proxy) (lines : List Text) : List Text :=
  match p.style, lines.getLast? with
  | .appends blanks, some last =>
    lines.dropLast ++ [last ++ ',' :: (List.replicate blanks ' ' ++ p.entry.1)]
  | .appends _, none => [p.entry.1]
  | .addsLine, _ => lines ++ [p.entry.1]

/-- The lines that arrive, the outermost proxy writing first. -/
def arrive (proxies : List Proxy) (caller : List Text) : List Text :=
  proxies.foldl (fun lines p => p.write lines) caller

/-- How many lines arrive of a caller's `n`. -/
def arriving (proxies : List Proxy) (n : ℕ) : ℕ :=
  proxies.foldl (fun n p => if p.style = .addsLine then n + 1 else max 1 n) n

/-! ## Entries -/

@[simp] theorem chain_nil : chain [] = [] := rfl

/-- A comma separates entries. -/
theorem chain_append_comma (a b : Text) : chain (a ++ ',' :: b) = chain a ++ chain b := by
  rw [chain, chain, chain, List.splitOn_append_cons_of_beq a b (by rfl), List.map_append,
    List.filter_append]

theorem strip_blank (t : Text) : strip (' ' :: t) = strip t := by
  rw [strip, strip, List.dropWhile_cons_of_pos (by decide)]

theorem chain_blank (t : Text) : chain (' ' :: t) = chain t := by
  obtain ⟨first, rest, h⟩ := List.exists_cons_of_ne_nil (List.splitOn_ne_nil ',' t)
  rw [chain, chain, List.splitOn_cons_eq_if_modifyHead, if_neg (by decide), h]
  simp only [List.modifyHead_cons, List.map_cons, strip_blank]

theorem chain_blanks (blanks : ℕ) (t : Text) :
    chain (List.replicate blanks ' ' ++ t) = chain t := by
  induction blanks with
  | zero => rfl
  | succ n ih => rw [List.replicate_succ, List.cons_append, chain_blank, ih]

/-- A proxy adds its entry after all others. -/
theorem chain_write (p : Proxy) (lines : List Text) :
    (p.write lines).flatMap chain = lines.flatMap chain ++ [p.entry.1] := by
  unfold Proxy.write
  split
  · next blanks last _ hlast =>
    obtain ⟨init, rfl⟩ := List.getLast?_eq_some_iff.mp hlast
    simp [chain_append_comma, chain_blanks, p.entry.2]
  · next hlast =>
    rw [List.getLast?_eq_none_iff.mp hlast]
    simp [p.entry.2]
  · simp [p.entry.2]

/-- **The entries of all lines end in those of the proxies.** -/
theorem chain_arrive (proxies : List Proxy) (caller : List Text) :
    (arrive proxies caller).flatMap chain =
      caller.flatMap chain ++ proxies.map fun p => p.entry.1 := by
  induction proxies generalizing caller with
  | nil => simp [arrive]
  | cons p proxies ih =>
    have h := ih (p.write caller)
    rw [chain_write] at h
    simpa [arrive] using h

theorem length_write (p : Proxy) (lines : List Text) :
    (p.write lines).length =
      if p.style = .addsLine then lines.length + 1 else max 1 lines.length := by
  unfold Proxy.write
  split
  · next hstyle hlast =>
    obtain ⟨init, rfl⟩ := List.getLast?_eq_some_iff.mp hlast
    simp [hstyle]
  · next hstyle hlast =>
    rw [List.getLast?_eq_none_iff.mp hlast]
    simp [hstyle]
  · next hstyle => simp [hstyle]

theorem length_arrive (proxies : List Proxy) (caller : List Text) :
    (arrive proxies caller).length = arriving proxies caller.length := by
  induction proxies generalizing caller with
  | nil => rfl
  | cons p proxies ih =>
    have h := ih (p.write caller)
    rw [length_write] at h
    exact h

/-! ## The first line -/

/-- Proxies write nothing in a line that is not the last. -/
theorem head?_arrive_of_two (proxies : List Proxy) (first second : Text) (rest : List Text) :
    (arrive proxies (first :: second :: rest)).head? = some first := by
  induction proxies generalizing second rest with
  | nil => rfl
  | cons p proxies ih =>
    obtain ⟨second', rest', h⟩ : ∃ second' rest',
        p.write (first :: second :: rest) = first :: second' :: rest' := by
      unfold Proxy.write
      split
      · cases hrest : (second :: rest).dropLast with
        | nil => exact ⟨_, [], by rw [List.dropLast_cons_cons, hrest]; rfl⟩
        | cons s r => exact ⟨s, _, by rw [List.dropLast_cons_cons, hrest]; rfl⟩
      · next hlast => simp at hlast
      · exact ⟨second, _, rfl⟩
    have harrive : arrive (p :: proxies) (first :: second :: rest) =
        arrive proxies (p.write (first :: second :: rest)) := rfl
    rw [harrive, h]
    exact ih second' rest'

/-- The first line holds what the first proxies appended, and not what the last one wrote if more
lines arrive. -/
theorem chain_first_line (proxies : List Proxy) (line : Text) :
    ∃ first k, (arrive proxies [line]).head? = some first ∧
      chain first = chain line ++ (proxies.take k).map (fun p => p.entry.1) ∧
      (arriving proxies 1 ≠ 1 → k < proxies.length) := by
  induction proxies generalizing line with
  | nil => exact ⟨line, 0, rfl, by simp, fun h => absurd rfl h⟩
  | cons p proxies ih =>
    cases hstyle : p.style with
    | appends blanks =>
      obtain ⟨first, k, hhead, hchain, hk⟩ :=
        ih (line ++ ',' :: (List.replicate blanks ' ' ++ p.entry.1))
      refine ⟨first, k + 1, ?_, ?_, fun h => ?_⟩
      · simpa [arrive, Proxy.write, hstyle] using hhead
      · rw [hchain, chain_append_comma, chain_blanks, p.entry.2]
        simp
      · have hmore : arriving proxies 1 ≠ 1 := by simpa [arriving, hstyle] using h
        have := hk hmore
        simp only [List.length_cons]
        omega
    | addsLine =>
      refine ⟨line, 0, ?_, by simp, fun _ => by simp⟩
      have h := head?_arrive_of_two proxies line p.entry.1 []
      simpa [arrive, Proxy.write, hstyle] using h

/-! ## The key -/

/-- A line that ends in as many entries as there are hops gives the first of them. -/
theorem clientKey_of_chain {line : Text} {before trusted : List Text} (peer : Option Text)
    {e : Text} (h : chain line = before ++ e :: trusted) :
    clientKey peer (some line) (trusted.length + 1) = e := by
  have hne : line ≠ [] := by
    rintro rfl
    simp at h
  simp [clientKey, hne, h]

/-- A line with fewer entries gives the peer. -/
theorem clientKey_of_short {line : Text} {hops : ℕ} (peer : Option Text)
    (h : (chain line).length < hops) : clientKey peer (some line) hops = peerKey peer := by
  simp [clientKey, Nat.not_le.mpr h]

/-- A line of one entry over and over. -/
def forged (e : Entry) (n : ℕ) : Text := (List.replicate n (e.1 ++ [','])).flatten

theorem chain_forged (e : Entry) (n : ℕ) : chain (forged e n) = List.replicate n e.1 := by
  induction n with
  | zero => rfl
  | succ n ih =>
    have hline : forged e (n + 1) = e.1 ++ ',' :: forged e n := by
      simp [forged, List.replicate_succ]
    rw [hline, chain_append_comma, ih, e.2, List.replicate_succ]
    rfl

/-- A first line that starts with a caller's forgery is read in it. -/
theorem clientKey_of_forged {line : Text} (e : Entry) {hops : ℕ} (peer : Option Text)
    {written : List Text} (hwritten : written.length < hops)
    (h : chain line = chain (forged e hops) ++ written) :
    clientKey peer (some line) hops = e.1 := by
  rw [chain_forged] at h
  have hsplit : chain line = List.replicate written.length e.1 ++
      e.1 :: (List.replicate (hops - written.length - 1) e.1 ++ written) := by
    have hcount : hops = written.length + (hops - written.length - 1 + 1) := by omega
    rw [h]
    conv_lhs => rw [hcount]
    rw [← List.replicate_append_replicate, List.replicate_succ]
    simp
  have hlen : hops =
      (List.replicate (hops - written.length - 1) e.1 ++ written).length + 1 := by
    simp
    omega
  rw [hlen]
  exact clientKey_of_chain peer hsplit

/-- Where no entry stands after the first line, the caller's entries do not matter. -/
theorem quotaKey_of_first_line {lines before trusted : List Text} {e : Text} (peer : Option Text)
    (h : lines.flatMap chain = before ++ e :: trusted) (hlater : lines.tail.flatMap chain = []) :
    quotaKey ⟨peer, lines⟩ (trusted.length + 1) = e := by
  cases lines with
  | nil => simp at h
  | cons line rest =>
    rw [List.flatMap_cons, show rest.flatMap chain = [] from hlater, List.append_nil] at h
    exact clientKey_of_chain peer h

/-- An entry that differs from a given one, and names the peer that has it. -/
theorem exists_entry_ne (e : Text) :
    ∃ forger : Entry, forger.1 ≠ e ∧ peerKey (some forger.1) = forger.1 := by
  by_cases h : e = ['a']
  · exact ⟨⟨['b'], rfl⟩, by rw [h]; decide, rfl⟩
  · exact ⟨⟨['a'], rfl⟩, fun ha => h ha.symm, rfl⟩

/-- **Who the caller is.** Whatever `n` lines of whatever text a caller sends, its key is the entry
that the outermost trusted proxy wrote, just when one line of the header arrives. -/
theorem outermost_keys_iff (outermost : Proxy) (inner : List Proxy) (n : ℕ) :
    (∀ (peer : Option Text) (caller : List Text), caller.length = n →
      quotaKey ⟨peer, arrive (outermost :: inner) caller⟩ (inner.length + 1) =
        outermost.entry.1) ↔
    arriving (outermost :: inner) n = 1 := by
  constructor
  · intro hkey
    by_contra hmore
    obtain ⟨forger, hforger, hpeer⟩ := exists_entry_ne outermost.entry.1
    match n with
    | 0 =>
      -- The caller sends no line, and the first line holds too few entries.
      have hfirst : arrive (outermost :: inner) [] = arrive inner [outermost.entry.1] := by
        cases hstyle : outermost.style <;> simp [arrive, Proxy.write, hstyle]
      have hcount : arriving (outermost :: inner) 0 = arriving inner 1 := by
        cases hstyle : outermost.style <;> simp [arriving, hstyle]
      obtain ⟨first, k, hhead, hchain, hk⟩ := chain_first_line inner outermost.entry.1
      have hfew := hk (by rw [← hcount]; exact hmore)
      have hshort : (chain first).length < inner.length + 1 := by
        rw [hchain, outermost.entry.2]
        simp
        omega
      have h := hkey (some forger.1) [] rfl
      rw [quotaKey, hfirst, hhead, clientKey_of_short _ hshort, hpeer] at h
      exact hforger h
    | 1 =>
      -- A forged line, to which not all of the proxies append.
      obtain ⟨first, k, hhead, hchain, hk⟩ :=
        chain_first_line (outermost :: inner) (forged forger (inner.length + 1))
      have hfew := hk hmore
      have hwritten : (((outermost :: inner).take k).map fun p => p.entry.1).length <
          inner.length + 1 := by
        rw [List.length_map, List.length_take]
        exact Nat.lt_of_le_of_lt (Nat.min_le_left _ _) hfew
      have h := hkey none [forged forger (inner.length + 1)] rfl
      rw [quotaKey, hhead, clientKey_of_forged forger none hwritten hchain] at h
      exact hforger h
    | n + 2 =>
      -- A forged line before the one that the proxies append to.
      have h := hkey none (forged forger (inner.length + 1) :: [] :: List.replicate n [])
        (by simp)
      rw [quotaKey, head?_arrive_of_two, clientKey_of_forged forger none (Nat.succ_pos _)
        (List.append_nil _).symm] at h
      exact hforger h
  · intro hone peer caller hlen
    have hsingle : (arrive (outermost :: inner) caller).length = 1 := by
      rw [length_arrive, hlen, hone]
    have hentries := chain_arrive (outermost :: inner) caller
    rw [List.map_cons] at hentries
    have h := quotaKey_of_first_line peer hentries (by
      obtain ⟨line, hline⟩ := List.length_eq_one_iff.mp hsingle
      rw [hline]
      rfl)
    rw [List.length_map] at h
    exact h

/-- A balancer that adds a line of its own: the caller's line is the key. -/
theorem forged_line_is_key :
    quotaKey ⟨some "10.0.0.7".toList,
        arrive [⟨.addsLine, ⟨"198.51.100.4".toList, by decide⟩⟩] ["1.1.1.1".toList]⟩ 1 =
      "1.1.1.1".toList ∧ "1.1.1.1".toList ≠ "198.51.100.4".toList := by
  decide

end RoutePlanner.Api
