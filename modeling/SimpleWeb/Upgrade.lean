/-
**The client's side of the handshake.**

A model of `SocketClientBase::upgrade` (`websocket/client_ws.hpp`): the request that is written, and
what is done with the response.  The response is read up to an empty line; what was read behind it
stays in the buffer, and its length is passed to `read_message`.

The client should open the connection for a genuine answer and report an error for every other one.
It does so except in three cases: an answer without an accept field, whose end iterator is
dereferenced; an accept field that `base64_decode` cannot take; and one whose decoded value differs
from the digest but agrees with it as a C string.

Main definitions:

* `SimpleWeb.Client.Address`, `SimpleWeb.Client.writeRequest` — the request;
* `SimpleWeb.Client.onResponse`, `SimpleWeb.Client.upgrade` — the check of the response, and the
  handlers around it;
* `SimpleWeb.Client.Genuine` — the answers that should be accepted;
* `SimpleWeb.Client.CallsOpen`, `SimpleWeb.Client.CallsError` — what the check ends with.

Main results:

* `SimpleWeb.Client.onResponse_cases` — how the check can end;
* `SimpleWeb.Client.upgrade_cases` — **`upgrade` calls back at most once**;
* `SimpleWeb.Client.checks_answer_iff` — **when exactly the genuine answers are accepted**.
-/

import SimpleWeb.Client
import SimpleWeb.Handshake

set_option relaxedAutoImplicit false
set_option autoImplicit false

namespace SimpleWeb.Client

/-! ### The request -/

/-- Where the client connects to. -/
structure Address where
  host : Bytes
  port : UInt16
  defaultPort : UInt16
  path : Bytes

/-- The 16 random bytes. -/
abbrev Nonce := { nonce : Bytes // nonce.length = 16 }

def nonceBase64 (nonce : Nonce) : Bytes := base64Encode nonce.1 (UInt32.ofNat nonce.1.length)

/-- `corrected_path`; `plain` is whether the socket is a TCP socket. -/
def correctedPath (config : Config) (plain : Bool) (a : Address) : Bytes :=
  if config.proxyServer ≠ [] ∧ plain then
    ascii "http://" ++ a.host ++ ascii ":" ++ toDecimal a.port.toNat ++ a.path
  else a.path

/-- The request that `upgrade` writes. -/
def writeRequest (config : Config) (plain : Bool) (a : Address) (order : Order) (nonce : Nonce) :
    Bytes :=
  ascii "GET " ++ correctedPath config plain a ++ ascii " HTTP/1.1" ++ crlf ++
    ascii "Host: " ++ a.host ++
    (if a.port ≠ a.defaultPort then ascii ":" ++ toDecimal a.port.toNat else []) ++ crlf ++
    ascii "Upgrade: websocket" ++ crlf ++
    ascii "Connection: Upgrade" ++ crlf ++
    ascii "Sec-WebSocket-Key: " ++ nonceBase64 nonce ++ crlf ++
    ascii "Sec-WebSocket-Version: 13" ++ crlf ++
    writeFields (order.elements config.header) ++ crlf

/-! ### The response -/

variable (callbacks : Callbacks) (sha1 : Bytes → Digest) (beyond : Bytes) (order : Order)
  (rd : ℕ → Mask) (nonce : Nonce)

/-- The handler of the read of the response.  The read has found the end of the head after
`bytesTransferred` bytes of `streambuf`. -/
def onResponse (streambuf : Bytes) (bytesTransferred : ℕ) : Except Fault Conn :=
  let numAdditionalBytes := streambuf.length - bytesTransferred
  do
    let (success, response, rest) ← ResponseMessage.parse streambuf {}
    let c : Conn := { inMessage := { InMessage.empty with streambuf := rest }, rd := rd }
    if !success then return c.connectionError callbacks .protocolError
    else if response.statusCode.take 4 ≠ ascii "101 " then
      return c.connectionError callbacks .permissionDenied
    else
      match findField order response.header (ascii "Sec-WebSocket-Accept") with
      | none => .error .derefEnd
      | some headerIt =>
          let b64 ← base64Decode headerIt.2
          let inSha := nonceBase64 nonce ++ wsMagicString
          let hexString := hexString (sha1 inSha) beyond
          if cString b64 = cString hexString then
            return (c.connectionOpen callbacks).readMessage numAdditionalBytes
          else return c.connectionError callbacks .protocolError

/-- The completion of the read of the response. -/
def onResponseRead (lock : Bool) (ec : Option ErrorCode) (streambuf : Bytes)
    (bytesTransferred : ℕ) : Except Fault Conn :=
  let c : Conn := { inMessage := { InMessage.empty with streambuf := streambuf }, rd := rd }
  if !lock then .ok c
  else
    match ec with
    | some ec => .ok (c.connectionError callbacks ec)
    | none => onResponse callbacks sha1 beyond order rd nonce streambuf bytesTransferred

/-- The completion of the write of the request: the connection if it has failed, and otherwise the
response is read. -/
def onRequestWritten (lock : Bool) (ec : Option ErrorCode) : Option Conn :=
  let c : Conn := { rd := rd }
  if !lock then some c
  else ec.map fun ec => c.connectionError callbacks ec

/-- `upgrade`, from the completion of the write on: `lock` and `ec` are those of the write, `lock'`
and `ec'` those of the read. -/
def upgrade (lock lock' : Bool) (ec ec' : Option ErrorCode) (streambuf : Bytes)
    (bytesTransferred : ℕ) : Except Fault Conn :=
  match onRequestWritten callbacks rd lock ec with
  | some c => .ok c
  | none =>
      onResponseRead callbacks sha1 beyond order rd nonce lock' ec' streambuf bytesTransferred

/-! ### Genuine answers -/

/-- The digest that the server should send. -/
def expected : Digest := sha1 (nonceBase64 nonce ++ wsMagicString)

/-- An answer that switches protocols and carries the digest. -/
def Genuine (streambuf : Bytes) : Prop :=
  ∃ response rest, ResponseMessage.parse streambuf {} = .ok (true, response, rest) ∧
    ascii "101 " <+: response.statusCode ∧
    ∃ f ∈ response.header, IsAccept f ∧ base64Decode f.2 = .ok (expected sha1 nonce).1

/-- The answer has at most one accept field. -/
def AcceptOnce (streambuf : Bytes) : Prop :=
  ∀ response rest, ResponseMessage.parse streambuf {} = .ok (true, response, rest) →
    (response.header.filter IsAccept).length ≤ 1

/-- The check ends with `connection_open`, and nothing else has been called. -/
def CallsOpen (result : Except Fault Conn) : Prop :=
  ∃ c n, c.log = [] ∧ result = .ok ((Conn.connectionOpen callbacks c).readMessage n)

/-- The check ends with `connection_error`, and nothing else has been called. -/
def CallsError (result : Except Fault Conn) : Prop :=
  ∃ c ec, c.log = [] ∧ c.reading = none ∧ result = .ok (Conn.connectionError callbacks c ec)

/-- Where an answer that switches protocols is checked as it should be: the accept field is there,
it can be decoded, and it is not only as a C string that it agrees with the digest. -/
def Checkable (streambuf : Bytes) : Prop :=
  ∀ response rest, ResponseMessage.parse streambuf {} = .ok (true, response, rest) →
    ascii "101 " <+: response.statusCode →
      ∃ f ∈ response.header, IsAccept f ∧ ∃ b64, base64Decode f.2 = .ok b64 ∧
        (cString b64 = cString (expected sha1 nonce).1 → b64 = (expected sha1 nonce).1)

variable {callbacks sha1 beyond order rd nonce}

/-- No call ends both with `connection_open` and with `connection_error`. -/
theorem CallsOpen.not_callsError {result : Except Fault Conn} (h : CallsOpen callbacks result) :
    ¬ CallsError callbacks result := by
  obtain ⟨c, n, -, rfl⟩ := h
  rintro ⟨c', ec, -, hr, heq⟩
  have hreading := congrArg Conn.reading (Except.ok.inj heq)
  rw [show (Conn.connectionError callbacks c' ec).reading = none from hr] at hreading
  cases hreading

theorem CallsError.ne_error {result : Except Fault Conn} (h : CallsError callbacks result)
    (fault : Fault) : result ≠ .error fault := by
  obtain ⟨c, ec, -, -, rfl⟩ := h
  exact nofun

/-! ### How the check ends -/

section cases

variable {streambuf rest : Bytes} {n : ℕ} {response : ResponseMessage} {f : Bytes × Bytes}

theorem take_eq_iff {s : Bytes} : s.take 4 = ascii "101 " ↔ ascii "101 " <+: s := by
  rw [List.prefix_iff_eq_take, eq_comm]
  rfl

/-- The answer does not switch protocols, or is none. -/
theorem callsError_of_refused {success : Bool}
    (hparse : ResponseMessage.parse streambuf {} = .ok (success, response, rest))
    (h : success = true → ¬ ascii "101 " <+: response.statusCode) :
    CallsError callbacks (onResponse callbacks sha1 beyond order rd nonce streambuf n) := by
  cases success with
  | false =>
      refine ⟨{ inMessage := { InMessage.empty with streambuf := rest }, rd := rd },
        .protocolError, rfl, rfl, ?_⟩
      simp [onResponse, hparse]
  | true =>
      have h101 := mt take_eq_iff.1 (h rfl)
      refine ⟨{ inMessage := { InMessage.empty with streambuf := rest }, rd := rd },
        .permissionDenied, rfl, rfl, ?_⟩
      simp [onResponse, hparse, h101]

variable (hparse : ResponseMessage.parse streambuf {} = .ok (true, response, rest))
  (h101 : ascii "101 " <+: response.statusCode)

include hparse h101

/-- There is no accept field. -/
theorem onResponse_absent
    (hfind : findField order response.header (ascii "Sec-WebSocket-Accept") = none) :
    onResponse callbacks sha1 beyond order rd nonce streambuf n = .error .derefEnd := by
  have htake := take_eq_iff.2 h101
  simp [onResponse, hparse, htake, hfind]

variable (hfind : findField order response.header (ascii "Sec-WebSocket-Accept") = some f)

include hfind

/-- The accept field cannot be decoded. -/
theorem onResponse_fault {fault : Fault} (hdecode : base64Decode f.2 = .error fault) :
    onResponse callbacks sha1 beyond order rd nonce streambuf n = .error fault := by
  have htake := take_eq_iff.2 h101
  simp [onResponse, hparse, htake, hfind, hdecode]

/-- The decoded value and the digest are the same C string. -/
theorem onResponse_open {b64 : Bytes} (hdecode : base64Decode f.2 = .ok b64)
    (heq : cString b64 = cString (expected sha1 nonce).1) :
    onResponse callbacks sha1 beyond order rd nonce streambuf n =
      .ok (opened callbacks rd rest (streambuf.length - n)) := by
  have htake := take_eq_iff.2 h101
  have hstring := cString_hexString (expected sha1 nonce) beyond
  rw [← hstring, expected] at heq
  simp [onResponse, hparse, htake, hfind, hdecode, heq, opened]

/-- The decoded value and the digest are different C strings. -/
theorem callsError_of_ne {b64 : Bytes} (hdecode : base64Decode f.2 = .ok b64)
    (hne : cString b64 ≠ cString (expected sha1 nonce).1) :
    CallsError callbacks (onResponse callbacks sha1 beyond order rd nonce streambuf n) := by
  have htake := take_eq_iff.2 h101
  have hstring := cString_hexString (expected sha1 nonce) beyond
  rw [← hstring, expected] at hne
  refine ⟨{ inMessage := { InMessage.empty with streambuf := rest }, rd := rd },
    .protocolError, rfl, rfl, ?_⟩
  simp [onResponse, hparse, htake, hfind, hdecode, hne]

/-- Of an accept field that is found, the decoded value decides. -/
theorem checks_found :
    ((CallsOpen callbacks (onResponse callbacks sha1 beyond order rd nonce streambuf n) ↔
        base64Decode f.2 = .ok (expected sha1 nonce).1) ∧
      (¬ base64Decode f.2 = .ok (expected sha1 nonce).1 →
        CallsError callbacks (onResponse callbacks sha1 beyond order rd nonce streambuf n)) ∧
      onResponse callbacks sha1 beyond order rd nonce streambuf n ≠ .error .derefEnd) ↔
    ∃ b64, base64Decode f.2 = .ok b64 ∧
      (cString b64 = cString (expected sha1 nonce).1 → b64 = (expected sha1 nonce).1) := by
  cases hdecode : base64Decode f.2 with
  | error fault =>
      have hfault := @onResponse_fault callbacks sha1 beyond order rd nonce streambuf rest n
        response f hparse h101 hfind fault hdecode
      refine iff_of_false ?_ ?_
      · rintro ⟨-, h, -⟩
        exact (h nofun).ne_error fault hfault
      · rintro ⟨b64, h, -⟩
        cases h
  | ok b64 =>
      by_cases heq : cString b64 = cString (expected sha1 nonce).1
      · -- the connection is opened, genuine or not
        have hresult := @onResponse_open callbacks sha1 beyond order rd nonce streambuf rest n
          response f hparse h101 hfind b64 hdecode heq
        have hopen : CallsOpen callbacks
            (onResponse callbacks sha1 beyond order rd nonce streambuf n) :=
          ⟨_, _, rfl, hresult⟩
        constructor
        · rintro ⟨h, -, -⟩
          exact ⟨b64, rfl, fun _ => Except.ok.inj (h.1 hopen)⟩
        · rintro ⟨b64', hb64, h⟩
          obtain rfl := Except.ok.inj hb64
          have hgenuine := congrArg (Except.ok (ε := Fault)) (h heq)
          refine ⟨iff_of_true hopen hgenuine, fun hnot => absurd hgenuine hnot, ?_⟩
          rw [hresult]
          exact nofun
      · have herror := @callsError_of_ne callbacks sha1 beyond order rd nonce streambuf rest n
          response f hparse h101 hfind b64 hdecode heq
        have hgenuine : Except.ok (ε := Fault) b64 ≠ .ok (expected sha1 nonce).1 := by
          intro h
          rw [Except.ok.inj h] at heq
          exact heq rfl
        refine iff_of_true ⟨iff_of_false (fun h => h.not_callsError herror) hgenuine,
          fun _ => herror, herror.ne_error _⟩ ⟨b64, rfl, fun h => absurd h heq⟩

end cases

/-- **How the check can end**: with an error, with a fault, or with an open connection that has in
its buffer what the parser has left there. -/
theorem onResponse_cases (streambuf : Bytes) (n : ℕ) :
    CallsError callbacks (onResponse callbacks sha1 beyond order rd nonce streambuf n) ∨
      (∃ fault, onResponse callbacks sha1 beyond order rd nonce streambuf n = .error fault) ∨
      ∃ response rest, ResponseMessage.parse streambuf {} = .ok (true, response, rest) ∧
        onResponse callbacks sha1 beyond order rd nonce streambuf n =
          .ok (opened callbacks rd rest (streambuf.length - n)) := by
  obtain ⟨success, response, rest, hparse⟩ := ResponseMessage.parse_ok streambuf {}
  by_cases hswitch : success = true → ¬ ascii "101 " <+: response.statusCode
  · exact Or.inl (callsError_of_refused hparse hswitch)
  obtain ⟨rfl, h101⟩ : success = true ∧ ascii "101 " <+: response.statusCode := by
    simpa using hswitch
  cases hfind : findField order response.header (ascii "Sec-WebSocket-Accept") with
  | none => exact Or.inr (Or.inl ⟨_, onResponse_absent hparse h101 hfind⟩)
  | some f =>
      cases hdecode : base64Decode f.2 with
      | error fault => exact Or.inr (Or.inl ⟨_, onResponse_fault hparse h101 hfind hdecode⟩)
      | ok b64 =>
          by_cases heq : cString b64 = cString (expected sha1 nonce).1
          · exact Or.inr (Or.inr
              ⟨response, rest, hparse, onResponse_open hparse h101 hfind hdecode heq⟩)
          · exact Or.inl (callsError_of_ne hparse h101 hfind hdecode heq)

/-- **`upgrade` calls back at most once**: not at all when a handler finds its connection closed, or
when the check faults; otherwise one of `connection_error` and `connection_open` is called. -/
theorem upgrade_cases (lock lock' : Bool) (ec ec' : Option ErrorCode) (streambuf : Bytes) (n : ℕ) :
    ((lock = false ∨ lock' = false) ∧ ∃ c, c.log = [] ∧ c.reading = none ∧
        upgrade callbacks sha1 beyond order rd nonce lock lock' ec ec' streambuf n = .ok c) ∨
      (∃ fault,
        upgrade callbacks sha1 beyond order rd nonce lock lock' ec ec' streambuf n = .error fault) ∨
      CallsError callbacks
        (upgrade callbacks sha1 beyond order rd nonce lock lock' ec ec' streambuf n) ∨
      CallsOpen callbacks
        (upgrade callbacks sha1 beyond order rd nonce lock lock' ec ec' streambuf n) := by
  cases lock with
  | false => exact Or.inl ⟨Or.inl rfl, _, rfl, rfl, rfl⟩
  | true =>
      cases ec with
      | some ec => exact Or.inr (Or.inr (Or.inl ⟨_, ec, rfl, rfl, rfl⟩))
      | none =>
          cases lock' with
          | false => exact Or.inl ⟨Or.inr rfl, _, rfl, rfl, rfl⟩
          | true =>
              cases ec' with
              | some ec' => exact Or.inr (Or.inr (Or.inl ⟨_, ec', rfl, rfl, rfl⟩))
              | none =>
                  -- what is left is the check
                  have hcheck : upgrade callbacks sha1 beyond order rd nonce true true none none
                      streambuf n = onResponse callbacks sha1 beyond order rd nonce streambuf n :=
                    rfl
                  rw [hcheck]
                  rcases @onResponse_cases callbacks sha1 beyond order rd nonce streambuf n with
                    h | ⟨fault, h⟩ | ⟨response, rest, -, h⟩
                  · exact Or.inr (Or.inr (Or.inl h))
                  · exact Or.inr (Or.inl ⟨fault, h⟩)
                  · exact Or.inr (Or.inr (Or.inr ⟨_, _, rfl, h⟩))

/-! ### Which answers are accepted -/

/-- The only accept field is the one that is found. -/
theorem findField_accept (order : Order) {header : CaseInsensitiveMultimap}
    (honce : (header.filter IsAccept).length ≤ 1) {f : Bytes × Bytes} (hf : f ∈ header)
    (haccept : IsAccept f) :
    findField order header (ascii "Sec-WebSocket-Accept") = some f := by
  apply findField_eq_some order hf haccept
  intro g hg hname
  have hmem : ∀ x ∈ header, IsAccept x → x ∈ header.filter IsAccept := by
    intro x hx hx'
    simp [hx, hx']
  have hf' := hmem f hf haccept
  have hg' := hmem g hg hname
  cases hfields : header.filter IsAccept with
  | nil => simp [hfields] at hf'
  | cons x tail =>
      have htail : tail = [] := by
        rw [hfields, List.length_cons] at honce
        exact List.length_eq_zero_iff.1 (by omega)
      rw [hfields, htail, List.mem_singleton] at hf' hg'
      rw [hf', hg']

section verdict

variable {streambuf rest : Bytes} {response : ResponseMessage}

theorem not_genuine_of_refused {success : Bool}
    (hparse : ResponseMessage.parse streambuf {} = .ok (success, response, rest))
    (h : success = true → ¬ ascii "101 " <+: response.statusCode) :
    ¬ Genuine sha1 nonce streambuf ∧ Checkable sha1 nonce streambuf := by
  constructor
  · rintro ⟨response', rest', hparse', h101, -⟩
    rw [hparse, Except.ok.injEq, Prod.mk.injEq, Prod.mk.injEq] at hparse'
    obtain ⟨rfl, rfl, -⟩ := hparse'
    exact h rfl h101
  · intro response' rest' hparse' h101
    rw [hparse, Except.ok.injEq, Prod.mk.injEq, Prod.mk.injEq] at hparse'
    obtain ⟨rfl, rfl, -⟩ := hparse'
    exact absurd h101 (h rfl)

variable (hparse : ResponseMessage.parse streambuf {} = .ok (true, response, rest))
  (h101 : ascii "101 " <+: response.statusCode)

include hparse h101

/-- Of an answer that switches protocols, only the accept field matters. -/
theorem genuine_iff : Genuine sha1 nonce streambuf ↔
    ∃ f ∈ response.header, IsAccept f ∧ base64Decode f.2 = .ok (expected sha1 nonce).1 := by
  constructor
  · rintro ⟨response', rest', hparse', -, h⟩
    rw [hparse, Except.ok.injEq, Prod.mk.injEq, Prod.mk.injEq] at hparse'
    obtain ⟨-, rfl, -⟩ := hparse'
    exact h
  · intro h
    exact ⟨response, rest, hparse, h101, h⟩

theorem checkable_iff : Checkable sha1 nonce streambuf ↔
    ∃ f ∈ response.header, IsAccept f ∧ ∃ b64, base64Decode f.2 = .ok b64 ∧
      (cString b64 = cString (expected sha1 nonce).1 → b64 = (expected sha1 nonce).1) := by
  constructor
  · intro h
    exact h response rest hparse h101
  · intro h response' rest' hparse' _
    rw [hparse, Except.ok.injEq, Prod.mk.injEq, Prod.mk.injEq] at hparse'
    obtain ⟨-, rfl, -⟩ := hparse'
    exact h

end verdict

/-- **When exactly the genuine answers are accepted.**  The connection is opened for the genuine
answers and for no others, every other answer ends with one error, and the end iterator is not
dereferenced, if and only if the answer can be checked. -/
theorem checks_answer_iff {streambuf : Bytes} (honce : AcceptOnce streambuf) (n : ℕ) :
    ((CallsOpen callbacks (onResponse callbacks sha1 beyond order rd nonce streambuf n) ↔
        Genuine sha1 nonce streambuf) ∧
      (¬ Genuine sha1 nonce streambuf →
        CallsError callbacks (onResponse callbacks sha1 beyond order rd nonce streambuf n)) ∧
      onResponse callbacks sha1 beyond order rd nonce streambuf n ≠ .error .derefEnd) ↔
    Checkable sha1 nonce streambuf := by
  obtain ⟨success, response, rest, hparse⟩ := ResponseMessage.parse_ok streambuf {}
  by_cases hswitch : success = true → ¬ ascii "101 " <+: response.statusCode
  · -- the answer is refused, and it is not genuine
    obtain ⟨hgenuine, hcheckable⟩ := @not_genuine_of_refused sha1 nonce _ _ _ _ hparse hswitch
    have herror := @callsError_of_refused callbacks sha1 beyond order rd nonce _ _ n _ _ hparse hswitch
    refine iff_of_true ⟨⟨fun h => absurd herror h.not_callsError, fun h => absurd h hgenuine⟩,
      fun _ => herror, herror.ne_error _⟩ hcheckable
  obtain ⟨rfl, h101⟩ : success = true ∧ ascii "101 " <+: response.statusCode := by
    simpa using hswitch
  have honly : ∀ {g : Bytes × Bytes}, g ∈ response.header → IsAccept g →
      findField order response.header (ascii "Sec-WebSocket-Accept") = some g :=
    fun hg hg' => findField_accept order (honce response rest hparse) hg hg'
  rw [checkable_iff hparse h101, genuine_iff hparse h101]
  cases hfind : findField order response.header (ascii "Sec-WebSocket-Accept") with
  | none =>
      -- the end iterator is dereferenced
      refine iff_of_false ?_ ?_
      · rintro ⟨-, -, h⟩
        exact h (onResponse_absent hparse h101 hfind)
      · rintro ⟨f, hf, haccept, -⟩
        rw [honly hf haccept] at hfind
        cases hfind
  | some f =>
      obtain ⟨hf, haccept⟩ := findField_some order hfind
      have hunique : ∀ {P : Bytes × Bytes → Prop},
          (∃ g ∈ response.header, IsAccept g ∧ P g) ↔ P f := by
        intro P
        constructor
        · rintro ⟨g, hg, hg', h⟩
          obtain rfl : g = f := Option.some.inj ((honly hg hg').symm.trans hfind)
          exact h
        · intro h
          exact ⟨f, hf, haccept, h⟩
      rw [hunique, hunique]
      exact checks_found hparse h101 hfind

/-! #### Answers to one nonce -/

/-- The nonce whose key has a digest with a zero byte. -/
def sampleNonce : Nonce :=
  ⟨[82, 59, 230, 85, 123, 81, 52, 222, 193, 150, 129, 244, 161, 51, 106, 162], rfl⟩

theorem expected_sampleNonce : expected calcSha1 sampleNonce = Server.cutDigest := by
  have hkey : nonceBase64 sampleNonce = Server.cutKey := by decide +kernel
  rw [expected, hkey, Server.calcSha1_cutKey]

theorem decode_wholeDigest : base64Decode (ascii "jlUQLACuNU42uoMufLD0HDVk/ao=") =
    .ok (expected calcSha1 sampleNonce).1 := by
  rw [expected_sampleNonce, ← Server.encode_cutDigest]
  exact base64Decode_encode (by rw [Server.cutDigest.2]; omega)

theorem decode_cutDigest : base64Decode (ascii "jlUQLAAAAAAAAAAAAAAAAAAAAAA=") =
    .ok (hexString Server.cutDigest []) := by
  rw [← Server.encode_hexString_cutDigest]
  exact base64Decode_encode (by rw [length_hexString]; omega)

/-- An answer with the given fields. -/
def sampleAnswer (fields : CaseInsensitiveMultimap) : Bytes :=
  ResponseMessage.statusLine (ascii "1.1") (ascii "101 Switching Protocols") ++ 10 ::
    HttpHeader.fieldLines fields

theorem parse_sampleAnswer {fields : CaseInsensitiveMultimap}
    (h : ∀ f ∈ fields, HttpHeader.Plain f) :
    ResponseMessage.parse (sampleAnswer fields) {} =
      .ok (true, ⟨ascii "1.1", ascii "101 Switching Protocols", fields⟩, []) := by
  have hfields := HttpHeader.parse_fields h []
  rw [List.append_nil] at hfields
  exact ResponseMessage.parse_response (by decide) (by decide) hfields {}

/-- The answer with the digest up to its zero byte, which is what a server sends. -/
def cutAnswer : Bytes :=
  sampleAnswer [(ascii "Sec-WebSocket-Accept", ascii "jlUQLAAAAAAAAAAAAAAAAAAAAAA=")]

/-- The answer with the whole digest. -/
def wholeAnswer : Bytes :=
  sampleAnswer [(ascii "Sec-WebSocket-Accept", ascii "jlUQLACuNU42uoMufLD0HDVk/ao=")]

/-- Without an accept field the end iterator is dereferenced, and the cut digest is accepted. -/
theorem not_checks_answer :
    onResponse {} calcSha1 [] .insertion (fun _ _ => 0) sampleNonce (sampleAnswer [])
        (sampleAnswer []).length = .error .derefEnd ∧
      CallsOpen {} (onResponse {} calcSha1 [] .insertion (fun _ _ => 0) sampleNonce cutAnswer
        cutAnswer.length) ∧
      ¬ Genuine calcSha1 sampleNonce cutAnswer := by
  have h101 : ascii "101 " <+: ascii "101 Switching Protocols" := by decide
  have hparse : ResponseMessage.parse cutAnswer {} = _ := parse_sampleAnswer (by decide)
  refine ⟨onResponse_absent (parse_sampleAnswer (by simp)) h101 rfl, ?_, ?_⟩
  · refine ⟨_, _, rfl, onResponse_open hparse h101 rfl decode_cutDigest ?_⟩
    rw [expected_sampleNonce, cString_hexString]
  · rw [genuine_iff hparse h101]
    rintro ⟨f, hf, -, h⟩
    rw [List.mem_singleton.1 hf, decode_cutDigest, expected_sampleNonce] at h
    have hzeros := (hexString_eq_iff Server.cutDigest []).1 (Except.ok.inj h)
    exact absurd hzeros (by decide)

/-- The whole digest is accepted. -/
theorem checks_answer_iff_sample :
    CallsOpen {} (onResponse {} calcSha1 [] .insertion (fun _ _ => 0) sampleNonce wholeAnswer
      wholeAnswer.length) := by
  have h101 : ascii "101 " <+: ascii "101 Switching Protocols" := by decide
  have hparse : ResponseMessage.parse wholeAnswer {} = _ := parse_sampleAnswer (by decide)
  have hdecode := decode_wholeDigest
  have honce : AcceptOnce wholeAnswer := by
    intro response rest hparse'
    rw [hparse, Except.ok.injEq, Prod.mk.injEq, Prod.mk.injEq] at hparse'
    obtain ⟨-, rfl, -⟩ := hparse'
    decide
  have hfield := List.mem_singleton.2
    (Eq.refl (ascii "Sec-WebSocket-Accept", ascii "jlUQLACuNU42uoMufLD0HDVk/ao="))
  have hcheckable := (checkable_iff hparse h101).2
    ⟨_, hfield, isAccept_name _, _, hdecode, fun _ => rfl⟩
  have hgenuine := (genuine_iff hparse h101).2 ⟨_, hfield, isAccept_name _, hdecode⟩
  have hchecks := (@checks_answer_iff {} calcSha1 [] .insertion (fun _ _ => 0) sampleNonce
    wholeAnswer honce wholeAnswer.length).2 hcheckable
  exact hchecks.1.2 hgenuine

end SimpleWeb.Client
