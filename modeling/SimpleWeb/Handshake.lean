/-
**The server's side of the handshake.**

A model of `SocketServerBase::read_handshake` and `SocketServerBase::write_handshake`
(`websocket/server_ws.hpp`): a request head is parsed, the first endpoint whose expression matches
the path answers it, and the digest of the key is put into the answer.  The digest function
`sha1` is a parameter.  The digest is turned into a string as a C string is, so that what lies in memory behind
its 20 bytes is read when none of them is zero; `beyond` stands for these bytes.

The answer should carry the Base64 encoding of the digest.  It does so exactly when the zero bytes
of the digest, if there are any, are its last ones: behind the first zero byte everything is
replaced by zeros.

Main definitions:

* `SimpleWeb.hexString` — the string that is made of a digest;
* `SimpleWeb.Server.writeHandshake`, `SimpleWeb.Server.Answer` — the answer to a request;
* `SimpleWeb.Server.onRequest`, `SimpleWeb.Server.onWritten` — the handlers around it.

Main results:

* `SimpleWeb.hexString_eq` — what lies behind the digest does not matter;
* `SimpleWeb.hexString_eq_iff` — when the string is the digest;
* `SimpleWeb.Server.accept_field_iff` — **when the answer carries the digest of the key**.
-/

import SimpleWeb.Http
import SimpleWeb.Server
import SimpleWeb.StatusCode
import SimpleWeb.WSCrypto

set_option relaxedAutoImplicit false
set_option autoImplicit false

namespace SimpleWeb

/-! ### The digest as a string -/

/-- `ws_magic_string`. -/
def wsMagicString : Bytes := ascii "258EAFA5-E914-47DA-95CA-C5AB0DC85B11"

/-- `std::string hexString((const char*)hash)` and `hexString.resize(20)`. -/
def hexString (hash : Digest) (beyond : Bytes) : Bytes := resize 20 (cString (hash.1 ++ beyond))

/-- Zero bytes come last: there is nothing but zeros behind the first of them. -/
def ZerosLast (s : Bytes) : Prop := s.Pairwise fun a b => a = 0 → b = 0

instance (s : Bytes) : Decidable (ZerosLast s) := List.instDecidablePairwise s

theorem cString_append_zero {a : Bytes} (h : 0 ∉ a) (b : Bytes) : cString (a ++ 0 :: b) = a :=
  Cut.before_append h b

theorem cString_append {a : Bytes} (h : 0 ∉ a) (b : Bytes) : cString (a ++ b) = a ++ cString b :=
  Cut.before_append_of_not_mem h b

theorem cString_eq {a : Bytes} (h : 0 ∉ a) : cString a = a := Cut.before_eq_self h

/-- A string has no zero byte, or is cut at its first one. -/
theorem zero_cases (s : Bytes) : 0 ∉ s ∨ ∃ a b, s = a ++ 0 :: b ∧ 0 ∉ a := by
  by_cases h : (0 : UInt8) ∈ s
  · obtain ⟨a, b, rfl, ha⟩ := List.eq_append_cons_of_mem h
    exact Or.inr ⟨a, b, rfl, ha⟩
  · exact Or.inl h

/-- **What lies behind the digest does not matter**: its bytes are kept up to the first zero byte,
and the rest is filled with zeros. -/
theorem hexString_eq (hash : Digest) (beyond : Bytes) :
    hexString hash beyond = resize 20 (cString hash.1) := by
  rcases zero_cases hash.1 with h | ⟨a, b, heq, ha⟩
  · rw [hexString, cString_append h, cString_eq h]
    simp [resize, hash.2]
  · rw [hexString, heq, List.append_assoc, List.cons_append, cString_append_zero ha,
      cString_append_zero ha]

theorem length_hexString (hash : Digest) (beyond : Bytes) : (hexString hash beyond).length = 20 :=
  length_resize _ _

/-- As a C string, it is the digest. -/
theorem cString_hexString (hash : Digest) (beyond : Bytes) :
    cString (hexString hash beyond) = cString hash.1 := by
  rw [hexString_eq]
  rcases zero_cases hash.1 with h | ⟨a, b, heq, ha⟩
  · rw [cString_eq h]
    have hwhole : resize 20 hash.1 = hash.1 := by
      simp [resize, hash.2, List.take_of_length_le]
    rw [hwhole, cString_eq h]
  · have hlen := congrArg List.length heq
    rw [hash.2, List.length_append, List.length_cons] at hlen
    obtain ⟨k, hk⟩ : ∃ k, 20 - a.length = k + 1 := ⟨b.length, by omega⟩
    rw [heq, cString_append_zero ha, resize, List.take_of_length_le (by omega), hk,
      List.replicate_succ, cString_append_zero ha]

theorem zerosLast_of_not_mem {a : Bytes} (h : 0 ∉ a) : ZerosLast a := by
  apply List.pairwise_of_forall_mem_list
  intro x hx y _ hzero
  rw [hzero] at hx
  exact absurd hx h

theorem zerosLast_append_zero {a : Bytes} (h : 0 ∉ a) (b : Bytes) :
    ZerosLast (a ++ 0 :: b) ↔ ∀ x ∈ b, x = 0 := by
  constructor
  · intro hlast x hx
    have htail := (List.pairwise_append.1 hlast).2.1
    exact (List.pairwise_cons.1 htail).1 x hx rfl
  · intro hb
    refine List.pairwise_append.2 ⟨zerosLast_of_not_mem h, List.pairwise_cons.2 ⟨?_, ?_⟩, ?_⟩
    · intro x hx _
      exact hb x hx
    · exact List.pairwise_of_forall_mem_list fun x _ y hy _ => hb y hy
    · intro x hx y _ hzero
      rw [hzero] at hx
      exact absurd hx h

/-- **When the string is the digest.** -/
theorem hexString_eq_iff (hash : Digest) (beyond : Bytes) :
    hexString hash beyond = hash.1 ↔ ZerosLast hash.1 := by
  rw [hexString_eq]
  rcases zero_cases hash.1 with h | ⟨a, b, heq, ha⟩
  · rw [cString_eq h]
    simp [resize, hash.2, zerosLast_of_not_mem h]
  · have hlen := congrArg List.length heq
    rw [hash.2, List.length_append, List.length_cons] at hlen
    have hfill : 20 - a.length = b.length + 1 := by omega
    rw [heq, cString_append_zero ha, zerosLast_append_zero ha, resize,
      List.take_of_length_le (by omega), hfill, List.append_cancel_left_eq, List.replicate_succ,
      List.cons.injEq, and_iff_right rfl, eq_comm, List.eq_replicate_iff, and_iff_right rfl]

/-! ### Fields -/

/-- The fields as they are written: `"name: value\r\n"`. -/
def writeFields (fields : CaseInsensitiveMultimap) : Bytes :=
  fields.flatMap fun f => f.1 ++ ascii ": " ++ f.2 ++ crlf

/-- The field that answers the key. -/
def IsAccept (f : Bytes × Bytes) : Prop := Named (ascii "Sec-WebSocket-Accept") f

instance (f : Bytes × Bytes) : Decidable (IsAccept f) :=
  inferInstanceAs (Decidable (Named (ascii "Sec-WebSocket-Accept") f))

/-- The accept field is one of that name. -/
theorem isAccept_name (value : Bytes) : IsAccept (ascii "Sec-WebSocket-Accept", value) :=
  named_self _ value

/-- What `base64_encode` makes of the string. -/
theorem base64Encode_hexString (hash : Digest) (beyond : Bytes) :
    base64Encode (hexString hash beyond) (UInt32.ofNat (hexString hash beyond).length) =
      Base64.encode (hexString hash beyond) :=
  base64Encode_eq (by rw [length_hexString]; omega)

namespace Server

/-! ### Answers -/

/-- The part of `Endpoint` that the handshake uses: whether its expression matches a path, and
`on_handshake`, which may change the response header and the status. -/
structure Endpoint where
  regexMatch : Bytes → Bool
  onHandshake : Option
    (RequestMessage → CaseInsensitiveMultimap → StatusCode × CaseInsensitiveMultimap) := none
  callbacks : Callbacks := {}

/-- What `write_handshake` writes, and what the handler of the write captures. -/
structure Answer where
  endpoint : Endpoint
  statusCode : StatusCode
  responseHeader : CaseInsensitiveMultimap
  streambuf : Bytes

variable (config : Config) (sha1 : Bytes → Digest) (beyond : Bytes) (order : Order)

/-- The response header before `on_handshake` is called. -/
def responseHeader (key : Bytes) : CaseInsensitiveMultimap :=
  let responseHeader := emplace config.header (ascii "Upgrade") (ascii "websocket")
  let responseHeader := emplace responseHeader (ascii "Connection") (ascii "Upgrade")
  let inSha := key ++ wsMagicString
  let hexString := hexString (sha1 inSha) beyond
  let b64 := base64Encode hexString (UInt32.ofNat hexString.length)
  emplace responseHeader (ascii "Sec-WebSocket-Accept") b64

/-- The answer of the endpoint that matches. -/
def answer (endpoint : Endpoint) (request : RequestMessage) : Answer :=
  let refuse (statusCode : StatusCode) (header : CaseInsensitiveMultimap) : Answer :=
    ⟨endpoint, statusCode, header,
      ascii "HTTP/1.1 " ++ SimpleWeb.statusCode statusCode ++ crlf ++ crlf⟩
  match findField order request.header (ascii "Sec-WebSocket-Key") with
  | none => refuse .clientErrorUpgradeRequired []
  | some keyIt =>
      let header := responseHeader config sha1 beyond keyIt.2
      let (statusCode, header) : StatusCode × CaseInsensitiveMultimap :=
        match endpoint.onHandshake with
        | none => (.informationSwitchingProtocols, header)
        | some onHandshake => onHandshake request header
      if statusCode = .informationSwitchingProtocols then
        ⟨endpoint, statusCode, header,
          ascii "HTTP/1.1 101 Web Socket Protocol Handshake" ++ crlf ++
            writeFields (order.elements header) ++ crlf⟩
      else refuse statusCode header

/-- `write_handshake`: the first endpoint that matches answers; when none does, nothing is
written. -/
def writeHandshake (endpoints : List Endpoint) (request : RequestMessage) : Option Answer :=
  (endpoints.find? fun e => e.regexMatch request.path).map fun e =>
    answer config sha1 beyond order e request

/-- The handler of the read of the request head: the answer, if there is one, and what is left in
the buffer. -/
def onRequest (endpoints : List Endpoint) (lock : Bool) (ec : Option ErrorCode)
    (streambuf : Bytes) : Except Fault (Option Answer × Bytes) :=
  if !lock then .ok (none, streambuf)
  else
    match ec with
    | some _ => .ok (none, streambuf)
    | none => do
        let (success, request, rest) ← RequestMessage.parse streambuf {}
        if success then return (writeHandshake config sha1 beyond order endpoints request, rest)
        else return (none, rest)

/-- The handler of the write of the answer. -/
def onWritten (a : Answer) (streambuf : Bytes) (lock : Bool) (ec : Option ErrorCode) : Conn :=
  let c : Conn := { streambuf := streambuf }
  if !lock then c
  else if a.statusCode ≠ .informationSwitchingProtocols then c
  else
    match ec with
    | none => (Conn.connectionOpen a.endpoint.callbacks c).readMessage
    | some ec => Conn.connectionError a.endpoint.callbacks c ec

/-! ### The accept field -/

variable {config sha1 beyond order}

/-- Of the fields that the server itself writes, only the last is an accept field. -/
theorem eq_of_isAccept {key : Bytes} (hconfig : ∀ f ∈ config.header, ¬ IsAccept f)
    {f : Bytes × Bytes} (hf : f ∈ responseHeader config sha1 beyond key) (haccept : IsAccept f) :
    f = (ascii "Sec-WebSocket-Accept",
      Base64.encode (hexString (sha1 (key ++ wsMagicString)) beyond)) := by
  have hupgrade : ¬ IsAccept (ascii "Upgrade", ascii "websocket") := by decide
  have hconnection : ¬ IsAccept (ascii "Connection", ascii "Upgrade") := by decide
  simp only [responseHeader, emplace, List.append_assoc, List.mem_append, List.mem_singleton,
    base64Encode_hexString] at hf
  rcases hf with hf | rfl | rfl | hf
  · exact absurd haccept (hconfig f hf)
  · exact absurd haccept hupgrade
  · exact absurd haccept hconnection
  · exact hf

@[simp] theorem answer_endpoint (endpoint : Endpoint) (request : RequestMessage) :
    (answer config sha1 beyond order endpoint request).endpoint = endpoint := by
  cases hkey : findField order request.header (ascii "Sec-WebSocket-Key") with
  | none => simp [answer, hkey]
  | some key =>
      cases hset : endpoint.onHandshake with
      | none => simp [answer, hkey, hset]
      | some onHandshake =>
          simp only [answer, hkey, hset]
          split <;> rfl

/-- An answer that switches protocols: there is a key, the fields are those of the server as
`on_handshake` left them, and they are what is written. -/
theorem answer_switching {endpoint : Endpoint} {request : RequestMessage}
    (h : (answer config sha1 beyond order endpoint request).statusCode =
      .informationSwitchingProtocols) :
    ∃ key, findField order request.header (ascii "Sec-WebSocket-Key") = some key ∧
      (answer config sha1 beyond order endpoint request).streambuf =
        ascii "HTTP/1.1 101 Web Socket Protocol Handshake" ++ crlf ++ writeFields (order.elements
          (answer config sha1 beyond order endpoint request).responseHeader) ++ crlf ∧
      (answer config sha1 beyond order endpoint request).responseHeader =
        match endpoint.onHandshake with
        | none => responseHeader config sha1 beyond key.2
        | some f => (f request (responseHeader config sha1 beyond key.2)).2 := by
  cases hkey : findField order request.header (ascii "Sec-WebSocket-Key") with
  | none => simp [answer, hkey] at h
  | some key =>
      refine ⟨key, rfl, ?_⟩
      cases hhandshake : endpoint.onHandshake with
      | none => simp [answer, hkey, hhandshake]
      | some onHandshake =>
          simp only [answer, hkey, hhandshake] at h ⊢
          split at h
          · next hstatus => simp [hstatus]
          · next hstatus => exact absurd h hstatus

/-- Every other answer is a status line. -/
theorem answer_refused {endpoint : Endpoint} {request : RequestMessage}
    (h : (answer config sha1 beyond order endpoint request).statusCode ≠
      .informationSwitchingProtocols) :
    (answer config sha1 beyond order endpoint request).streambuf =
      ascii "HTTP/1.1 " ++ SimpleWeb.statusCode
        (answer config sha1 beyond order endpoint request).statusCode ++ crlf ++ crlf := by
  cases hkey : findField order request.header (ascii "Sec-WebSocket-Key") with
  | none => simp [answer, hkey]
  | some key =>
      cases hhandshake : endpoint.onHandshake with
      | none => simp [answer, hkey, hhandshake] at h
      | some onHandshake =>
          simp only [answer, hkey, hhandshake] at h ⊢
          split
          · next hstatus => simp [hstatus] at h
          · rfl

/-- **When the answer carries the digest of the key.**  `config.header` has no accept field, and
`on_handshake` adds none. -/
theorem accept_field_iff {endpoints : List Endpoint} {request : RequestMessage} {a : Answer}
    (h : writeHandshake config sha1 beyond order endpoints request = some a)
    (h101 : a.statusCode = .informationSwitchingProtocols)
    (hconfig : ∀ f ∈ config.header, ¬ IsAccept f)
    (hhandshake : ∀ onHandshake, a.endpoint.onHandshake = some onHandshake →
      ∀ header, ∀ f ∈ (onHandshake request header).2, IsAccept f → f ∈ header) :
    ∃ key, findField order request.header (ascii "Sec-WebSocket-Key") = some key ∧
      (∀ f ∈ a.responseHeader, IsAccept f →
        (f.2 = Base64.encode (sha1 (key.2 ++ wsMagicString)).1 ↔
          ZerosLast (sha1 (key.2 ++ wsMagicString)).1)) ∧
      (a.endpoint.onHandshake = none → ∃ f ∈ a.responseHeader, IsAccept f) := by
  obtain ⟨endpoint, -, rfl⟩ := Option.map_eq_some_iff.1 h
  obtain ⟨key, hkey, -, hheader⟩ := answer_switching h101
  rw [answer_endpoint] at hhandshake ⊢
  have hdigest := hexString_eq_iff (sha1 (key.2 ++ wsMagicString)) beyond
  refine ⟨key, hkey, ?_, ?_⟩
  · intro f hf haccept
    have hmem : f ∈ responseHeader config sha1 beyond key.2 := by
      rw [hheader] at hf
      cases hset : endpoint.onHandshake with
      | none => simpa only [hset] using hf
      | some onHandshake =>
          rw [hset] at hf
          exact hhandshake onHandshake hset _ f hf haccept
    have hlen := length_hexString (sha1 (key.2 ++ wsMagicString)) beyond
    have hlen' := (sha1 (key.2 ++ wsMagicString)).2
    rw [eq_of_isAccept hconfig hmem haccept, encode_inj (by omega) (by omega), hdigest]
  · intro hset
    rw [hheader, hset]
    exact ⟨_, List.mem_append_right _ (List.mem_singleton.2 rfl), isAccept_name _⟩

/-! #### The answer to one key -/

def cutKey : Bytes := ascii "UjvmVXtRNN7BloH0oTNqog=="

/-- The digest of that key, with a zero byte at index 4. -/
def cutDigest : Digest :=
  ⟨[142, 85, 16, 44, 0, 174, 53, 78, 54, 186, 131, 46, 124, 176, 244, 28, 53, 100, 253, 170], rfl⟩

theorem calcSha1_cutKey : calcSha1 (cutKey ++ wsMagicString) = cutDigest := by
  decide +kernel

theorem encode_cutDigest : Base64.encode cutDigest.1 = ascii "jlUQLACuNU42uoMufLD0HDVk/ao=" := by
  decide +kernel

theorem encode_hexString_cutDigest :
    Base64.encode (hexString cutDigest []) = ascii "jlUQLAAAAAAAAAAAAAAAAAAAAAA=" := by
  decide +kernel

def sampleRequest : RequestMessage :=
  { method := ascii "GET", path := ascii "/", version := ascii "1.1",
    header := [(ascii "Sec-WebSocket-Key", cutKey)] }

def sampleEndpoint : Endpoint := { regexMatch := fun _ => true }

/-- The server answers with the digest cut at its zero byte. -/
theorem accept_field_cut :
    (writeHandshake {} calcSha1 [] .insertion [sampleEndpoint] sampleRequest).map
        (fun a => (a.statusCode, a.responseHeader)) =
      some (.informationSwitchingProtocols,
        [(ascii "Upgrade", ascii "websocket"), (ascii "Connection", ascii "Upgrade"),
          (ascii "Sec-WebSocket-Accept", ascii "jlUQLAAAAAAAAAAAAAAAAAAAAAA=")]) ∧
    Base64.encode (calcSha1 (cutKey ++ wsMagicString)).1 =
      ascii "jlUQLACuNU42uoMufLD0HDVk/ao=" := by
  have hheader : responseHeader {} calcSha1 [] cutKey =
      [(ascii "Upgrade", ascii "websocket"), (ascii "Connection", ascii "Upgrade"),
        (ascii "Sec-WebSocket-Accept", ascii "jlUQLAAAAAAAAAAAAAAAAAAAAAA=")] := by
    simp only [responseHeader, base64Encode_hexString, calcSha1_cutKey, encode_hexString_cutDigest]
    rfl
  have hanswer : answer {} calcSha1 [] .insertion sampleEndpoint sampleRequest =
      ⟨sampleEndpoint, .informationSwitchingProtocols, responseHeader {} calcSha1 [] cutKey, _⟩ :=
    rfl
  refine ⟨?_, by rw [calcSha1_cutKey, encode_cutDigest]⟩
  rw [← hheader, writeHandshake, show List.find? _ [sampleEndpoint] = some sampleEndpoint from rfl,
    Option.map_some, Option.map_some, hanswer]

/-- The field of this answer is not the digest of the key. -/
theorem accept_field_iff_cut :
    ∃ f ∈ (answer {} calcSha1 [] .insertion sampleEndpoint sampleRequest).responseHeader,
      IsAccept f ∧ f.2 ≠ Base64.encode (calcSha1 (cutKey ++ wsMagicString)).1 := by
  obtain ⟨key, hkey, hiff, hpresent⟩ := @accept_field_iff {} calcSha1 [] .insertion
    [sampleEndpoint] sampleRequest _ rfl rfl (by simp) (by rintro _ ⟨⟩)
  obtain rfl : (ascii "Sec-WebSocket-Key", cutKey) = key := Option.some.inj hkey
  obtain ⟨f, hf, haccept⟩ := hpresent rfl
  have hzeros : ¬ ZerosLast cutDigest.1 := by decide
  refine ⟨f, hf, haccept, ?_⟩
  intro h
  have hlast := (hiff f hf haccept).1 h
  rw [calcSha1_cutKey] at hlast
  exact hzeros hlast

end Server

end SimpleWeb
