import Mathlib.Data.List.Basic
import Mathlib.Order.Lattice

/-!
# `commute/app.py`: the limit on a request body

`BodySizeLimit` stands between the server and the app. The server delivers the body of a request
in messages, as an ASGI server does: the message without `more_body` is the last of the body, and
nothing but disconnects follows it (`Delivery`). The app calls `receive` as often as it likes, so
what it is given is a `Receive`, a state that `next` advances, and never one list of bytes.

With a `Content-Length` the middleware compares the header and hands on the server's own `receive`.
Without one it counts the body and hands on a replay.

* `readBody_of_lt`, `readBody_complete_iff`: what the counting loop does.
* `limit_holds_iff`: the limit holds just when the header that is trusted bounds the body.
-/

namespace RoutePlanner.Commute

/-- `bytes`. -/
abbrev Bytes := List UInt8

/-! ## `int` of a byte string -/

/-- `Py_ISSPACE`. -/
def isSpaceByte (b : UInt8) : Bool := b == 32 || (9 ≤ b && b ≤ 13)

/-- The value of a decimal digit. -/
def digitValue (b : UInt8) : Option ℕ :=
  if 48 ≤ b ∧ b ≤ 57 then some (b.toNat - 48) else none

/-- The digits of a literal. One underscore may stand between two of them. -/
def literalDigits : Bytes → Option (List ℕ)
  | [] => none
  | [b] => (digitValue b).map fun d => [d]
  | b :: c :: rest =>
    (digitValue b).bind fun d =>
      (if c = 95 then literalDigits rest else literalDigits (c :: rest)).map fun ds => d :: ds

/-- `sys.int_info.default_max_str_digits`: a longer literal is a `ValueError` too. -/
def maxStrDigits : ℕ := 4300

/-- A literal without a sign. -/
def natLiteral (digits : Bytes) : Option ℕ :=
  (literalDigits digits).bind fun ds =>
    if maxStrDigits < ds.length then none else some (ds.foldl (fun n d => 10 * n + d) 0)

/-- `int(value)`, where a `ValueError` is `none`. -/
def pyInt (value : Bytes) : Option ℤ :=
  match ((value.dropWhile isSpaceByte).reverse.dropWhile isSpaceByte).reverse with
  | 45 :: digits => (natLiteral digits).map fun n => -(n : ℤ)
  | 43 :: digits => (natLiteral digits).map fun n => (n : ℤ)
  | digits => (natLiteral digits).map fun n => (n : ℤ)

/-- Underscores, a sign and blanks are accepted; a second underscore is not. -/
example : pyInt [32, 43, 49, 95, 48, 32] = some 10 ∧ pyInt [49, 95, 95, 48] = none := by decide

/-! ## The middleware -/

/-- A `Message` that a server delivers: `http.request` with its optional keys, or
`http.disconnect`. -/
inductive Message where
  | request (body : Option Bytes) (moreBody : Option Bool)
  | disconnect

/-- What the middleware reads of a `Scope`. -/
structure Scope where
  type : String
  headers : Option (List (Bytes × Bytes))

/-- `b"content-length"`. -/
def contentLengthName : Bytes :=
  [99, 111, 110, 116, 101, 110, 116, 45, 108, 101, 110, 103, 116, 104]

/-- `_content_length`: the first such header decides. -/
def contentLength (scope : Scope) : Option ℤ :=
  match (scope.headers.getD []).find? fun h => h.1 == contentLengthName with
  | none => none
  | some (_, value) => pyInt value

/-- `message.get("body", b"")`; a disconnect has none. -/
def Message.bytes : Message → Bytes
  | .request body _ => body.getD []
  | .disconnect => []

/-- Nothing of the body follows. -/
def Message.isLast : Message → Bool
  | .request _ moreBody => !moreBody.getD false
  | .disconnect => true

/-- The `receive` that the app is given: the server's, or `replay`. What the server delivers next
is in `messages`. -/
inductive Receive where
  | server (messages : List Message)
  | replay (replayed : Bool) (body : Bytes) (messages : List Message)

/-- `await receive()`; `none` while the server delivers nothing. -/
def Receive.next : Receive → Option (Message × Receive)
  | .server [] => none
  | .server (m :: ms) => some (m, .server ms)
  | .replay false body ms => some (.request (some body) (some false), .replay true body ms)
  | .replay true _ [] => none
  | .replay true body (m :: ms) => some (m, .replay true body ms)

/-- How a call of the middleware goes on. -/
inductive Disposition where
  | tooLarge (detail : String)  -- the 413, with its `detail`
  | gone
  | waiting
  | app (receive : Receive)

/-- How the counting loop ends. -/
inductive Counted where
  | tooLarge
  | gone
  | waiting
  | complete (body : Bytes) (messages : List Message)

/-- The counting loop, with the `body` read so far. -/
def readBody (maxBytes : ℕ) : List Message → Bytes → Counted
  | [], _ => .waiting
  | .disconnect :: _, _ => .gone
  | .request part moreBody :: ms, body =>
    let body := body ++ part.getD []
    if maxBytes < body.length then .tooLarge
    else if moreBody.getD false then readBody maxBytes ms body
    else .complete body ms

/-- The `detail` of `_too_large`. -/
def tooLargeDetail (maxBytes : ℕ) : String :=
  "request body exceeds " ++ toString maxBytes ++ " bytes"

/-- `BodySizeLimit.__call__`, with `messages` to be delivered by the server. -/
def bodySizeLimit (maxBytes : ℕ) (scope : Scope) (messages : List Message) : Disposition :=
  if scope.type = "http" then
    match contentLength scope with
    | some declared =>
      if (maxBytes : ℤ) < declared then .tooLarge (tooLargeDetail maxBytes)
      else .app (.server messages)
    | none =>
      match readBody maxBytes messages [] with
      | .tooLarge => .tooLarge (tooLargeDetail maxBytes)
      | .gone => .gone
      | .waiting => .waiting
      | .complete body rest => .app (.replay false body rest)
  else .app (.server messages)

/-- `MAX_BODY_BYTES`. -/
def maxBodyBytes : ℕ := 1048576

/-! ## What is sent and what is received -/

/-- After the last message of the body, only disconnects. -/
def Conforming : List Message → Prop
  | [] => True
  | m :: ms => if m.isLast = true then ∀ x ∈ ms, x = .disconnect else Conforming ms

/-- The messages that a server delivers. -/
structure Delivery where
  messages : List Message
  conforming : Conforming messages

/-- The bytes in a list of messages. -/
def bodyOf (ms : List Message) : Bytes := ms.flatMap Message.bytes

/-- The body sent. -/
def Delivery.body (sent : Delivery) : Bytes := bodyOf sent.messages

/-- The last message of the body was delivered. -/
def Delivery.Complete (sent : Delivery) : Prop :=
  ∃ part more, .request part more ∈ sent.messages ∧ more.getD false = false

/-- The messages of the first `n` calls of `receive`. -/
def Receive.pulls : ℕ → Receive → List Message
  | 0, _ => []
  | n + 1, r =>
    match r.next with
    | none => []
    | some (m, r') => m :: pulls n r'

/-- The body an app has received after `n` calls. -/
def Receive.received (r : Receive) (n : ℕ) : Bytes := bodyOf (r.pulls n)

@[simp] theorem bodyOf_nil : bodyOf [] = [] := rfl

@[simp] theorem bodyOf_cons (m : Message) (ms : List Message) :
    bodyOf (m :: ms) = m.bytes ++ bodyOf ms := rfl

theorem bodyOf_disconnects {ms : List Message} (h : ∀ x ∈ ms, x = .disconnect) :
    bodyOf ms = [] := by
  refine List.flatMap_eq_nil_iff.mpr fun x hx => ?_
  rw [h x hx]
  rfl

theorem bodyOf_append (ms ms' : List Message) : bodyOf (ms ++ ms') = bodyOf ms ++ bodyOf ms' :=
  List.flatMap_append

/-- The server's `receive` delivers the messages one by one. -/
theorem pulls_server (n : ℕ) (ms : List Message) : (Receive.server ms).pulls n = ms.take n := by
  induction n generalizing ms with
  | zero => rfl
  | succ n ih =>
    cases ms with
    | nil => rfl
    | cons m ms => exact congrArg (m :: ·) (ih ms)

theorem pulls_replayed (n : ℕ) (body : Bytes) (ms : List Message) :
    (Receive.replay true body ms).pulls n = ms.take n := by
  induction n generalizing ms with
  | zero => rfl
  | succ n ih =>
    cases ms with
    | nil => rfl
    | cons m ms => exact congrArg (m :: ·) (ih ms)

/-- The first call of a replay returns the whole body. -/
theorem received_replay {n : ℕ} {body : Bytes} {ms : List Message}
    (h : ∀ x ∈ ms, x = .disconnect) :
    (Receive.replay false body ms).received (n + 1) = body := by
  have hrest : bodyOf (ms.take n) = [] :=
    bodyOf_disconnects fun x hx => h x (List.mem_of_mem_take hx)
  change body ++ bodyOf ((Receive.replay true body ms).pulls n) = body
  rw [pulls_replayed, hrest, List.append_nil]

/-- What an app receives from the server begins the body sent. -/
theorem received_server (ms : List Message) (n : ℕ) :
    (Receive.server ms).received n <+: bodyOf ms := by
  unfold Receive.received
  rw [pulls_server]
  refine ⟨bodyOf (ms.drop n), ?_⟩
  rw [← bodyOf_append, List.take_append_drop]

theorem received_server_all {ms : List Message} {n : ℕ} (h : ms.length ≤ n) :
    (Receive.server ms).received n = bodyOf ms := by
  unfold Receive.received
  rw [pulls_server, List.take_of_length_le h]

/-! ## The counting loop -/

/-- A body over the limit is noticed, in whatever message it passes it. -/
theorem readBody_of_lt {maxBytes : ℕ} {ms : List Message} (hms : Conforming ms) {body : Bytes}
    (hbody : body.length ≤ maxBytes) (h : maxBytes < (body ++ bodyOf ms).length) :
    readBody maxBytes ms body = .tooLarge := by
  induction ms generalizing body with
  | nil =>
    rw [bodyOf_nil, List.append_nil] at h
    omega
  | cons m ms ih =>
    cases m with
    | disconnect =>
      have hnil : bodyOf ms = [] := bodyOf_disconnects hms
      rw [bodyOf_cons, hnil, Message.bytes, List.append_nil, List.append_nil] at h
      omega
    | request part more =>
      rw [bodyOf_cons, Message.bytes, ← List.append_assoc] at h
      unfold readBody
      simp only
      by_cases hlt : maxBytes < (body ++ part.getD []).length
      · exact if_pos hlt
      · rw [if_neg hlt]
        cases hmore : more.getD false with
        | true =>
          rw [if_pos rfl]
          simp only [Conforming, Message.isLast, hmore] at hms
          exact ih hms (not_lt.mp hlt) h
        | false =>
          -- nothing of the body is left to pass the limit
          simp only [Conforming, Message.isLast, hmore] at hms
          rw [bodyOf_disconnects hms, List.append_nil] at h
          exact absurd h hlt

/-- A counted body is the whole body, within the limit, and only disconnects are left. -/
theorem readBody_complete {maxBytes : ℕ} {ms : List Message} (hms : Conforming ms)
    {body full : Bytes} {rest : List Message}
    (h : readBody maxBytes ms body = .complete full rest) :
    full = body ++ bodyOf ms ∧ full.length ≤ maxBytes ∧ ∀ x ∈ rest, x = .disconnect := by
  induction ms generalizing body with
  | nil => exact absurd h (by simp [readBody])
  | cons m ms ih =>
    cases m with
    | disconnect => exact absurd h (by simp [readBody])
    | request part more =>
      unfold readBody at h
      simp only at h
      split at h
      · exact absurd h (by simp)
      · rename_i hle
        cases hmore : more.getD false with
        | true =>
          rw [if_pos hmore] at h
          simp only [Conforming, Message.isLast, hmore] at hms
          rw [bodyOf_cons, Message.bytes, ← List.append_assoc]
          exact ih hms h
        | false =>
          rw [if_neg (by simp [hmore])] at h
          simp only [Conforming, Message.isLast, hmore] at hms
          obtain ⟨rfl, rfl⟩ := Counted.complete.inj h
          refine ⟨?_, not_lt.mp hle, hms⟩
          rw [bodyOf_cons, Message.bytes, bodyOf_disconnects hms, List.append_nil]

/-- A complete body within the limit is counted to its end. -/
theorem readBody_of_le {maxBytes : ℕ} {ms : List Message} (hms : Conforming ms) {body : Bytes}
    (hlast : ∃ part more, .request part more ∈ ms ∧ more.getD false = false)
    (h : (body ++ bodyOf ms).length ≤ maxBytes) :
    ∃ full rest, readBody maxBytes ms body = .complete full rest := by
  induction ms generalizing body with
  | nil =>
    obtain ⟨_, _, hmem, -⟩ := hlast
    exact absurd hmem List.not_mem_nil
  | cons m ms ih =>
    obtain ⟨part', more', hmem, hfin⟩ := hlast
    cases m with
    | disconnect =>
      rcases List.mem_cons.mp hmem with hx | hx
      · exact absurd hx (by simp)
      · exact absurd (hms _ hx) (by simp)
    | request part more =>
      rw [bodyOf_cons, Message.bytes, ← List.append_assoc] at h
      have hle : ¬ maxBytes < (body ++ part.getD []).length := by
        rw [List.length_append] at h
        omega
      unfold readBody
      simp only
      rw [if_neg hle]
      cases hmore : more.getD false with
      | true =>
        simp only [Conforming, Message.isLast, hmore] at hms
        rw [if_pos rfl]
        refine ih hms ⟨part', more', ?_, hfin⟩ h
        refine (List.mem_cons.mp hmem).resolve_left fun heq => ?_
        obtain ⟨-, rfl⟩ := Message.request.inj heq
        exact absurd (hmore.symm.trans hfin) (by simp)
      | false => exact ⟨_, _, rfl⟩

/-! ## The limit -/

/-- **The limit holds** of one request: the app never has more than the limit, a longer body is
answered 413, and a complete body within the limit, not declared longer, arrives as it was sent. -/
structure LimitHolds (maxBytes : ℕ) (scope : Scope) (sent : Delivery) : Prop where
  bounded : ∀ receive, bodySizeLimit maxBytes scope sent.messages = .app receive →
    ∀ n, (receive.received n).length ≤ maxBytes
  refused : maxBytes < sent.body.length →
    bodySizeLimit maxBytes scope sent.messages = .tooLarge (tooLargeDetail maxBytes)
  delivered : sent.Complete → sent.body.length ≤ maxBytes →
    (∀ declared, contentLength scope = some declared → declared ≤ maxBytes) →
    ∃ receive, bodySizeLimit maxBytes scope sent.messages = .app receive ∧
      (∀ n, receive.received n <+: sent.body) ∧
        ∃ N, ∀ n, N ≤ n → receive.received n = sent.body

/-- A request without a length, or with a malformed one, is counted. -/
theorem limitHolds_of_counted (maxBytes : ℕ) {scope : Scope} (hhttp : scope.type = "http")
    (hnone : contentLength scope = none) (sent : Delivery) : LimitHolds maxBytes scope sent := by
  have hcall : bodySizeLimit maxBytes scope sent.messages =
      match readBody maxBytes sent.messages [] with
      | .tooLarge => .tooLarge (tooLargeDetail maxBytes)
      | .gone => .gone
      | .waiting => .waiting
      | .complete body rest => .app (.replay false body rest) := by
    unfold bodySizeLimit
    rw [if_pos hhttp, hnone]
  have hreplay : ∀ {body rest n}, (∀ x ∈ rest, x = .disconnect) →
      (Receive.replay false body rest).received n <+: body := by
    intro body rest n hrest
    cases n with
    | zero => exact List.nil_prefix
    | succ n => exact (received_replay hrest).symm ▸ List.prefix_rfl
  refine ⟨fun receive happ n => ?_, fun hlt => ?_, fun hlast hle _ => ?_⟩
  · rw [hcall] at happ
    cases hread : readBody maxBytes sent.messages [] with
    | complete body rest =>
      rw [hread] at happ
      obtain rfl := Disposition.app.inj happ
      obtain ⟨-, hlen, hrest⟩ := readBody_complete sent.conforming hread
      exact (hreplay hrest).length_le.trans hlen
    | tooLarge | gone | waiting =>
      rw [hread] at happ
      exact absurd happ (by simp)
  · rw [hcall, readBody_of_lt sent.conforming (Nat.zero_le _) hlt]
  · have hle' : (([] : Bytes) ++ bodyOf sent.messages).length ≤ maxBytes := hle
    obtain ⟨full, rest, hread⟩ := readBody_of_le sent.conforming hlast hle'
    obtain ⟨hfull, -, hrest⟩ := readBody_complete sent.conforming hread
    obtain rfl : full = sent.body := hfull
    rw [hread] at hcall
    refine ⟨_, hcall, fun n => hreplay hrest, 1, fun n hn => ?_⟩
    obtain ⟨n, rfl⟩ : ∃ k, n = k + 1 := ⟨n - 1, by omega⟩
    exact received_replay hrest

/-- A length within the limit is trusted: the app has the server's `receive`. -/
theorem bodySizeLimit_trusted {maxBytes : ℕ} {scope : Scope} {declared : ℤ}
    (hhttp : scope.type = "http") (hlen : contentLength scope = some declared)
    (hle : declared ≤ maxBytes) (messages : List Message) :
    bodySizeLimit maxBytes scope messages = .app (.server messages) := by
  unfold bodySizeLimit
  rw [if_pos hhttp, hlen]
  exact if_neg (not_lt.mpr hle)

/-- **When the limit holds**: just when a trusted length, one that is an integer within the limit,
does not stand beside a longer body. -/
theorem limit_holds_iff (maxBytes : ℕ) {scope : Scope} (hhttp : scope.type = "http")
    (sent : Delivery) :
    LimitHolds maxBytes scope sent ↔
      ∀ declared, contentLength scope = some declared → declared ≤ maxBytes →
        sent.body.length ≤ maxBytes := by
  cases hlen : contentLength scope with
  | none =>
    exact iff_of_true (limitHolds_of_counted maxBytes hhttp hlen sent)
      fun declared hd => absurd hd (by simp)
  | some declared =>
    by_cases hlarge : (maxBytes : ℤ) < declared
    · -- refused by its header
      have hcall : bodySizeLimit maxBytes scope sent.messages =
          .tooLarge (tooLargeDetail maxBytes) := by
        unfold bodySizeLimit
        rw [if_pos hhttp, hlen]
        exact if_pos hlarge
      refine iff_of_true ⟨fun receive happ => ?_, fun _ => hcall, fun _ _ hdecl => ?_⟩ ?_
      · exact absurd (hcall.symm.trans happ) (by simp)
      · exact absurd (hdecl declared hlen) (not_le.mpr hlarge)
      · intro d hd hle
        obtain rfl := Option.some.inj hd
        exact absurd hle (not_le.mpr hlarge)
    · have hcall := bodySizeLimit_trusted hhttp hlen (not_lt.mp hlarge) sent.messages
      constructor
      · intro hholds d hd _
        have hall := hholds.bounded _ hcall sent.messages.length
        rw [received_server_all le_rfl] at hall
        exact hall
      · intro hle
        have hbody := hle declared rfl (not_lt.mp hlarge)
        refine ⟨fun receive happ n => ?_, fun hlt => absurd hbody (not_le.mpr hlt), fun _ _ _ => ?_⟩
        · obtain rfl := Disposition.app.inj (hcall.symm.trans happ)
          exact (received_server sent.messages n).length_le.trans hbody
        · exact ⟨_, hcall, received_server sent.messages, sent.messages.length,
            fun n hn => received_server_all hn⟩

/-! ## A length that understates a chunked body -/

/-- A chunked request that also carries `Content-Length: 2`. -/
def understated : Scope where
  type := "http"
  headers := some [
    ([116, 114, 97, 110, 115, 102, 101, 114, 45, 101, 110, 99, 111, 100, 105, 110, 103],
      [99, 104, 117, 110, 107, 101, 100]),
    (contentLengthName, [50])]

/-- A body one byte over `MAX_BODY_BYTES`, in two chunks. -/
def oneOver : Delivery where
  messages := [.request (some (List.replicate maxBodyBytes 120)) (some true),
    .request (some [120]) (some false)]
  conforming := fun _ hx => absurd hx List.not_mem_nil

theorem contentLength_understated : contentLength understated = some 2 := by decide

/-- The app receives all of it. -/
theorem understated_over_limit :
    (∃ receive, bodySizeLimit maxBodyBytes understated oneOver.messages = .app receive ∧
      (receive.received 2).length = maxBodyBytes + 1) ∧
    ¬ LimitHolds maxBodyBytes understated oneOver := by
  have hcall : bodySizeLimit maxBodyBytes understated oneOver.messages =
      .app (.server oneOver.messages) :=
    bodySizeLimit_trusted rfl contentLength_understated (by decide) _
  have hall : ((Receive.server oneOver.messages).received 2).length = maxBodyBytes + 1 := by
    rw [received_server_all (show oneOver.messages.length ≤ 2 from le_rfl)]
    simp [oneOver, Message.bytes]
  refine ⟨⟨_, hcall, hall⟩, fun hholds => ?_⟩
  have hle := hholds.bounded _ hcall 2
  omega

/-- A request that declares two bytes and sends them. -/
def twoBytes : Delivery where
  messages := [.request (some [123, 125]) none]
  conforming := fun _ hx => absurd hx List.not_mem_nil

/-- The limit on `twoBytes`. -/
theorem limit_holds_iff_twoBytes : LimitHolds maxBodyBytes understated twoBytes ↔
    ∀ declared, contentLength understated = some declared → declared ≤ maxBodyBytes →
      twoBytes.body.length ≤ maxBodyBytes :=
  limit_holds_iff maxBodyBytes rfl twoBytes

end RoutePlanner.Commute
